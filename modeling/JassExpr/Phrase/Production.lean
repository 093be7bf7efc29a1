import JassExpr.Phrase.Basic
import JassExpr.Phrase.Error

/-!
# Productions

A production reads one phrase off the front of some tokens. It carries the proof that the phrase
and the tokens left over are all the tokens there were. Since a phrase has at least one token,
whatever follows it is shorter, and reading again and again comes to an end.
-/

namespace JassExpr

/-- A way to read a phrase off the front of some tokens. -/
structure Production where
  read : List Token → Except Stop (Phrase Token × List Token)
  read_tokens : ∀ {tokens phrase rest}, read tokens = .ok (phrase, rest) →
    phrase.tokens ++ rest = tokens

namespace Production

theorem rest_length_lt (production : Production) {tokens rest : List Token}
    {phrase : Phrase Token} (found : production.read tokens = .ok (phrase, rest)) :
    rest.length < tokens.length := by
  have taken := List.length_pos_iff.mpr phrase.tokens_ne_nil
  rw [← production.read_tokens found, List.length_append]
  omega

def refused (kind : SyntaxErrorKind) : Production where
  read tokens := .error ⟨kind, tokens⟩
  read_tokens found := by simp at found

/-- Reads on after a left operand: operators of one precedence, each with an operand on its
right, all grouped to the left. -/
def chainFrom (precedence : Nat) (operand : Production) (left : Phrase Token)
    (tokens : List Token) : Except Stop (Phrase Token × List Token) :=
  match tokens with
  | [] => .ok (left, [])
  | token :: after =>
      match BinaryOp.atPrecedence? precedence token.kind with
      | none => .ok (left, token :: after)
      | some operator =>
          match _found : operand.read after with
          | .error stop => .error stop
          | .ok (right, rest) =>
              chainFrom precedence operand (.binary operator left token right) rest
termination_by tokens.length
decreasing_by
  have := operand.rest_length_lt _found
  simp only [List.length_cons]
  omega

theorem chainFrom_tokens {precedence : Nat} {operand : Production} {left phrase : Phrase Token}
    {tokens rest : List Token}
    (found : chainFrom precedence operand left tokens = .ok (phrase, rest)) :
    phrase.tokens ++ rest = left.tokens ++ tokens := by
  fun_induction chainFrom precedence operand left tokens with
  | case1 left => simp_all
  | case2 left token after notOperator => simp_all
  | case3 left token after operator isOperator stop stopped => simp at found
  | case4 left token after operator isOperator right others reading ih =>
      rw [ih found, ← operand.read_tokens reading]
      simp [Phrase.tokens]

/-- Operands with operators of one precedence between them, grouped to the left. -/
def chain (precedence : Nat) (operand : Production) : Production where
  read tokens :=
    match operand.read tokens with
    | .error stop => .error stop
    | .ok (left, rest) => chainFrom precedence operand left rest
  read_tokens found := by
    split at found
    · simp at found
    · rename_i left rest reading
      rw [chainFrom_tokens found, operand.read_tokens reading]

/-- The comparison operator with which some tokens begin. -/
def comparison? : List Token → Option BinaryOp
  | [] => none
  | token :: _ => BinaryOp.atPrecedence? BinaryOp.comparisonPrecedence token.kind

/-- An operand, or two operands with one comparison operator between them. -/
def comparison (operand : Production) : Production where
  read tokens :=
    match operand.read tokens with
    | .error stop => .error stop
    | .ok (left, []) => .ok (left, [])
    | .ok (left, token :: after) =>
        match comparison? (token :: after) with
        | none => .ok (left, token :: after)
        | some operator =>
            match operand.read after with
            | .error stop => .error stop
            | .ok (right, rest) =>
                match comparison? rest with
                | none => .ok (.binary operator left token right, rest)
                | some _ => .error ⟨.chainedComparison, rest⟩
  read_tokens found := by
    split at found
    · simp at found
    · rename_i left reading
      cases found
      exact operand.read_tokens reading
    · rename_i left token after reading
      rw [← operand.read_tokens reading]
      split at found
      · cases found
        rfl
      · split at found
        · simp at found
        · rename_i right rest readingRight
          rw [← operand.read_tokens readingRight]
          split at found
          · cases found
            simp [Phrase.tokens]
          · simp at found

/-- The first of some tokens, which has to be of one kind, and the others. -/
def expect (kind : TokenKind) : List Token → Except Stop (Token × List Token)
  | [] => .error ⟨.expected kind, []⟩
  | token :: rest =>
      if token.kind = kind then .ok (token, rest) else .error ⟨.expected kind, token :: rest⟩

theorem expect_tokens {kind : TokenKind} {tokens rest : List Token} {token : Token}
    (found : expect kind tokens = .ok (token, rest)) :
    token :: rest = tokens := by
  unfold expect at found
  split at found
  · simp at found
  · split at found
    · cases found
      rfl
    · simp at found

/-- Reads one argument or several with commas between them. The result is the arguments, the
commas, and the tokens left over. -/
def argumentsFrom (argument : Production) (tokens : List Token) :
    Except Stop (List (Phrase Token) × List Token × List Token) :=
  match _found : argument.read tokens with
  | .error stop => .error stop
  | .ok (first, []) => .ok ([first], [], [])
  | .ok (first, token :: after) =>
      if token.kind = .comma then
        match argumentsFrom argument after with
        | .error stop => .error stop
        | .ok (others, commas, rest) => .ok (first :: others, token :: commas, rest)
      else
        .ok ([first], [], token :: after)
termination_by tokens.length
decreasing_by
  have := argument.rest_length_lt _found
  simp only [List.length_cons] at this
  omega

theorem argumentsFrom_tokens {argument : Production} {tokens commas rest : List Token}
    {phrases : List (Phrase Token)}
    (found : argumentsFrom argument tokens = .ok (phrases, commas, rest)) :
    weave (Phrase.tokensOfEach phrases) (commas.map ([·])) ++ rest = tokens := by
  fun_induction argumentsFrom argument tokens generalizing phrases commas rest with
  | case1 tokens stop stopped => simp at found
  | case2 tokens first reading =>
      cases found
      simp [weave, Phrase.tokensOfEach, ← argument.read_tokens reading]
  | case3 tokens first token after reading isComma stop stopped ih =>
      simp at found
  | case4 tokens first token after reading isComma others otherCommas others' readingOthers ih =>
      cases found
      rw [← argument.read_tokens reading, ← ih readingOthers]
      simp [weave, Phrase.tokensOfEach]
  | case5 tokens first token after reading notComma =>
      cases found
      simp [weave, Phrase.tokensOfEach, ← argument.read_tokens reading]

end Production

end JassExpr
