import JassExpr.Phrase.Production

/-!
# The grammar of expressions

From the loosest to the tightest, an expression is made of `or`, of `and`, of one comparison at
most, of sums, of products, of operators in front of an operand, and of primaries: literals,
variables, calls, elements and groups. An operand of a unary operator and an expression in
parentheses or brackets lie one level deeper, and only so many levels are allowed.
-/

namespace JassExpr

/-- The constructs that lie one level deeper than what they stand in. -/
inductive Construct where
  /-- The operand of a unary operator. -/
  | operand
  /-- An expression in parentheses or brackets. -/
  | expression

namespace Production

/-- The arguments in front of a closing parenthesis, of which there may be none. -/
def argumentList (argument : Production) (tokens : List Token) :
    Except Stop (List (Phrase Token) × List Token × List Token) :=
  match tokens with
  | [] => argumentsFrom argument []
  | token :: after =>
      if token.kind = .rightParenthesis then .ok ([], [], token :: after)
      else argumentsFrom argument (token :: after)

theorem argumentList_tokens {argument : Production} {tokens commas rest : List Token}
    {phrases : List (Phrase Token)}
    (found : argumentList argument tokens = .ok (phrases, commas, rest)) :
    weave (Phrase.tokensOfEach phrases) (commas.map ([·])) ++ rest = tokens := by
  unfold argumentList at found
  split at found
  · exact argumentsFrom_tokens found
  · split at found
    · cases found
      rfl
    · exact argumentsFrom_tokens found

/-- What a name begins, given the tokens after it: a call, an element, or just a variable. -/
def named (inner : Construct → Production) (token : Token) (tokens : List Token) :
    Except Stop (Phrase Token × List Token) :=
  match tokens with
  | [] => .ok (.name token token.text, [])
  | opening :: after =>
      if opening.kind = .leftParenthesis then
        match argumentList (inner .expression) after with
        | .error stop => .error stop
        | .ok (arguments, commas, others) =>
            match expect .rightParenthesis others with
            | .error stop => .error stop
            | .ok (closing, rest) =>
                .ok (.call token token.text opening arguments commas closing, rest)
      else if opening.kind = .leftBracket then
        match (inner .expression).read after with
        | .error stop => .error stop
        | .ok (subscript, others) =>
            match expect .rightBracket others with
            | .error stop => .error stop
            | .ok (closing, rest) => .ok (.index token token.text opening subscript closing, rest)
      else
        .ok (.name token token.text, opening :: after)

theorem named_tokens {inner : Construct → Production} {token : Token} {tokens rest : List Token}
    {phrase : Phrase Token} (found : named inner token tokens = .ok (phrase, rest)) :
    phrase.tokens ++ rest = token :: tokens := by
  unfold named at found
  split at found
  · cases found
    rfl
  · split at found
    · split at found
      · simp at found
      · rename_i arguments commas others reading
        rw [← argumentList_tokens reading]
        split at found
        · simp at found
        · rename_i closing rest closed
          rw [← expect_tokens closed]
          cases found
          simp [Phrase.tokens]
    · split at found
      · split at found
        · simp at found
        · rename_i subscript others reading
          rw [← (inner .expression).read_tokens reading]
          split at found
          · simp at found
          · rename_i closing rest closed
            rw [← expect_tokens closed]
            cases found
            simp [Phrase.tokens]
      · cases found
        rfl

/-- What an opening parenthesis begins, given the tokens after it: an expression and the closing
parenthesis. -/
def grouped (inner : Construct → Production) (opening : Token) (tokens : List Token) :
    Except Stop (Phrase Token × List Token) :=
  match (inner .expression).read tokens with
  | .error stop => .error stop
  | .ok (phrase, others) =>
      match expect .rightParenthesis others with
      | .error stop => .error stop
      | .ok (closing, rest) => .ok (.group opening phrase closing, rest)

theorem grouped_tokens {inner : Construct → Production} {opening : Token}
    {tokens rest : List Token} {phrase : Phrase Token}
    (found : grouped inner opening tokens = .ok (phrase, rest)) :
    phrase.tokens ++ rest = opening :: tokens := by
  unfold grouped at found
  split at found
  · simp at found
  · rename_i phrase others reading
    rw [← (inner .expression).read_tokens reading]
    split at found
    · simp at found
    · rename_i closing rest closed
      rw [← expect_tokens closed]
      cases found
      simp [Phrase.tokens]

/-- A literal, a constant, a group, or what begins with a name. -/
def primary (inner : Construct → Production) : Production where
  read
    | [] => .error ⟨.expectedExpression, []⟩
    | token :: after =>
        if token.kind.isLiteral then
          match Literal.ofLexeme? token.toLexeme with
          | some value => .ok (.literal token value, after)
          | none => .error ⟨.invalidLiteral token.text, token :: after⟩
        else if token.kind = .identifier then
          match Literal.ofWord? token.text with
          | some value => .ok (.literal token value, after)
          | none => named inner token after
        else if token.kind = .leftParenthesis then
          grouped inner token after
        else
          .error ⟨.expectedExpression, token :: after⟩
  read_tokens {tokens phrase rest} found := by
    match tokens with
    | [] => simp at found
    | token :: after =>
        simp only at found
        split at found
        · split at found
          · cases found
            rfl
          · simp at found
        · split at found
          · split at found
            · cases found
              rfl
            · exact named_tokens found
          · split at found
            · exact grouped_tokens found
            · simp at found

/-- A unary operator with its operand, or a primary. -/
def unary (inner : Construct → Production) : Production where
  read
    | [] => (primary inner).read []
    | token :: after =>
        match UnaryOp.ofKind? token.kind with
        | none => (primary inner).read (token :: after)
        | some operator =>
            match (inner .operand).read after with
            | .error stop => .error stop
            | .ok (operand, rest) => .ok (.unary operator token operand, rest)
  read_tokens {tokens phrase rest} found := by
    match tokens with
    | [] => exact (primary inner).read_tokens found
    | token :: after =>
        simp only at found
        split at found
        · exact (primary inner).read_tokens found
        · split at found
          · simp at found
          · rename_i operand rest reading
            cases found
            simp [Phrase.tokens, ← (inner .operand).read_tokens reading]

def product (inner : Construct → Production) : Production :=
  chain BinaryOp.multiply.precedence (unary inner)

def sum (inner : Construct → Production) : Production :=
  chain BinaryOp.add.precedence (product inner)

def relation (inner : Construct → Production) : Production :=
  comparison (sum inner)

def conjunction (inner : Construct → Production) : Production :=
  chain BinaryOp.and.precedence (relation inner)

/-- Conjunctions with `or` between them, which is every expression. -/
def disjunction (inner : Construct → Production) : Production :=
  chain BinaryOp.or.precedence (conjunction inner)

/-- The productions one level deeper, when so many further levels may be entered. Where none may
be, nothing is read, and the refusal names the limit on all levels together. -/
def nested (limit : Nat) : Nat → Construct → Production
  | 0, _ => refused (.nestingTooDeep limit)
  | allowance + 1, .operand => unary (nested limit allowance)
  | allowance + 1, .expression => disjunction (nested limit allowance)

/-- An expression in which so many levels may be entered. -/
def expression (limit : Nat) : Production :=
  disjunction (nested limit limit)

end Production

end JassExpr
