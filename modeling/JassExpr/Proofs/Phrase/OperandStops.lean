import JassExpr.Proofs.Phrase.Stops

/-!
# Where operands and arguments stop

What a name or an opening parenthesis begins stops within its brackets, or behind what is in them
when they are not closed there. The tokens up to the stop are completed by closing the brackets.
-/

namespace JassExpr

namespace Production

open Phrase (Begun)

variable {argument : Production} {inner : Construct → Production} {bound : Nat}

/-! ## Arguments -/

/-- Some tokens begin one argument or several. -/
def ArgumentsBegun (bound : Nat) (front : List Token) : Prop :=
  ∃ phrases commas, phrases ≠ [] ∧ AreArguments bound phrases commas ∧
    front <+: weave (Phrase.tokensOfEach phrases) (commas.map ([·]))

theorem ArgumentsBegun.of_begun {front : List Token}
    (begun : Begun BinaryOp.or.precedence bound front) : ArgumentsBegun bound front := by
  obtain ⟨phrase, isPrefix, grammatical, tight, shallow⟩ := begun
  refine ⟨[phrase], [], by simp, .singleton grammatical shallow, ?_⟩
  simpa [Phrase.tokensOfEach, weave] using isPrefix

theorem ArgumentsBegun.cons {phrase : Phrase Token} {comma : Token} {front : List Token}
    (grammatical : phrase.Grammatical Token.toLexeme) (shallow : phrase.depth < bound)
    (isComma : comma.kind = .comma) (begun : ArgumentsBegun bound front) :
    ArgumentsBegun bound (phrase.tokens ++ [comma] ++ front) := by
  obtain ⟨phrases, commas, nonempty, are, isPrefix⟩ := begun
  refine ⟨phrase :: phrases, comma :: commas, by simp,
    .cons grammatical shallow isComma nonempty are, ?_⟩
  rw [Phrase.tokensOfEach, List.map_cons, weave]
  exact (List.prefix_append_right_inj _).mpr isPrefix

/-- A name with begun arguments begins a call. -/
theorem ArgumentsBegun.call {callee opening : Token} {front : List Token}
    (begun : ArgumentsBegun bound front) (word : callee.kind = .identifier)
    (free : Literal.ofWord? callee.text = none) (opens : opening.kind = .leftParenthesis) :
    Begun (BinaryOp.operandPrecedence + 1) (bound + 1) (callee :: opening :: front) := by
  obtain ⟨arguments, commas, nonempty, are, isPrefix⟩ := begun
  let closing : Token := ⟨.fixed .rightParenthesis, Span.origin⟩
  refine ⟨.call callee callee.text opening arguments commas closing, ?_,
    .call word free rfl opens rfl are.separate are.count are.inside, Nat.le.refl,
    Phrase.depthOfEach_lt_iff.mpr are.shallow⟩
  exact (List.prefix_cons_inj _).mpr
    ((List.prefix_cons_inj _).mpr (isPrefix.trans (List.prefix_append _ _)))

theorem argumentsFrom_error {tokens : List Token} {stop : Stop}
    (stopped : argument.read tokens = .error stop) :
    argumentsFrom argument tokens = .error stop := by
  rw [argumentsFrom]
  split
  · simp_all
  · simp_all
  · rename_i first token after reading
    rw [stopped] at reading
    cases reading

theorem argumentsFrom_comma_error {phrase : Phrase Token} {tokens after : List Token}
    {token : Token} {stop : Stop} (reading : argument.read tokens = .ok (phrase, token :: after))
    (isComma : token.kind = .comma) (stopped : argumentsFrom argument after = .error stop) :
    argumentsFrom argument tokens = .error stop := by
  rw [argumentsFrom]
  split
  · simp_all
  · simp_all
  · rename_i first token' after' reading'
    rw [reading] at reading'
    cases reading'
    rw [if_pos isComma, stopped]

/-- Arguments that were read are read again before whatever begins like what followed them. -/
theorem argumentsFrom_again (reads : argument.Reads BinaryOp.or.precedence bound)
    {phrases : List (Phrase Token)} {tokens commas rest later : List Token}
    (found : argumentsFrom argument tokens = .ok (phrases, commas, rest))
    (begins : ∀ token ∈ later.head?, token ∈ rest.head?) :
    argumentsFrom argument (weave (Phrase.tokensOfEach phrases) (commas.map ([·])) ++ later) =
      .ok (phrases, commas, later) := by
  fun_induction argumentsFrom argument tokens generalizing phrases commas rest with
  | case1 tokens stop stopped => cases found
  | case2 tokens first reading =>
      cases found
      have again := argumentsFrom_last (reads.read_again reading begins) fun token member =>
        absurd (begins token member) (by simp)
      simpa [Phrase.tokensOfEach, weave] using again
  | case3 tokens first token after reading isComma stop stopped ih => cases found
  | case4 tokens first token after reading isComma others otherCommas rest' readingOthers ih =>
      cases found
      rw [Phrase.tokensOfEach, List.map_cons, weave, List.append_assoc, List.append_assoc,
        List.singleton_append]
      exact argumentsFrom_comma (reads.read_again reading fun _ same => same) isComma
        (ih readingOthers begins)
  | case5 tokens first token after reading notComma =>
      cases found
      have again := argumentsFrom_last (reads.read_again reading begins) fun other member => by
        cases begins other member
        exact notComma
      simpa [Phrase.tokensOfEach, weave] using again

theorem refuses_argumentsFrom (reads : argument.Reads BinaryOp.or.precedence bound)
    (refuses : Refuses argument.read (Begun BinaryOp.or.precedence bound)) :
    Refuses (argumentsFrom argument) (ArgumentsBegun bound) := by
  intro tokens stop stopped
  fun_induction argumentsFrom argument tokens with
  | case1 tokens stop' stopped' =>
      cases stopped
      obtain ⟨front, stops⟩ := refuses stopped'
      exact ⟨front, stops.within .of_begun fun _ _ _ => argumentsFrom_error⟩
  | case2 tokens first reading => cases stopped
  | case3 tokens first token after reading isComma stop' stopped' ih =>
      cases stopped
      have stands := reads.sound reading
      obtain ⟨front, stops⟩ := ih stopped'
      rw [← argument.read_tokens reading, List.append_cons]
      refine ⟨_, stops.after (first.tokens ++ [token])
        (.cons stands.grammatical stands.shallow isComma) ?_⟩
      intro later stop begins stopped
      rw [← List.append_cons]
      exact argumentsFrom_comma_error (reads.read_again reading fun _ same => same) isComma stopped
  | case4 tokens first token after reading isComma others commas rest readingOthers ih =>
      cases stopped
  | case5 tokens first token after reading notComma => cases stopped

/-- An argument list is empty before a closing parenthesis, and otherwise arguments are read. -/
theorem argumentList_cases (argument : Production) (tokens : List Token) :
    (∃ closing rest, tokens = closing :: rest ∧ closing.kind = .rightParenthesis ∧
      argumentList argument tokens = .ok ([], [], tokens)) ∨
        ∀ later, (∀ token ∈ later.head?, token ∈ tokens.head?) →
          argumentList argument later = argumentsFrom argument later := by
  by_cases closes : ∃ closing ∈ tokens.head?, closing.kind = .rightParenthesis
  · obtain ⟨closing, member, closes⟩ := closes
    obtain ⟨rest, rfl⟩ := List.head?_eq_some_iff.mp member
    exact .inl ⟨closing, rest, rfl, closes, by rw [argumentList, if_pos closes]⟩
  · refine .inr fun later begins => ?_
    cases later with
    | nil => rfl
    | cons token after =>
        have notClosing : token.kind ≠ .rightParenthesis := fun isClosing =>
          closes ⟨token, begins token rfl, isClosing⟩
        rw [argumentList, if_neg notClosing]

theorem argumentList_again (reads : argument.Reads BinaryOp.or.precedence bound)
    {phrases : List (Phrase Token)} {tokens commas rest later : List Token}
    (found : argumentsFrom argument tokens = .ok (phrases, commas, rest))
    (begins : ∀ token ∈ later.head?, token ∈ rest.head?) :
    argumentList argument (weave (Phrase.tokensOfEach phrases) (commas.map ([·])) ++ later) =
      .ok (phrases, commas, later) := by
  obtain ⟨nonempty, are⟩ := argumentsFrom_sound reads found
  cases phrases with
  | nil => exact absurd rfl nonempty
  | cons first others =>
      rw [argumentList_cons (are.inside first List.mem_cons_self)]
      exact argumentsFrom_again reads found begins

theorem refuses_argumentList (reads : argument.Reads BinaryOp.or.precedence bound)
    (refuses : Refuses argument.read (Begun BinaryOp.or.precedence bound)) :
    Refuses (argumentList argument) (ArgumentsBegun bound) := by
  intro tokens stop stopped
  rcases argumentList_cases argument tokens with ⟨closing, rest, -, -, empty⟩ | same
  · rw [empty] at stopped
    cases stopped
  · rw [same tokens fun _ member => member] at stopped
    obtain ⟨front, stops⟩ := refuses_argumentsFrom reads refuses stopped
    refine ⟨front, stops.within (fun begun => begun) ?_⟩
    intro later stop begins stopped
    rw [same later begins, stopped]

/-! ## Operands -/

/-- The productions for what lies one level deeper stop only where they have to. -/
structure RefusesInner (inner : Construct → Production) (bound : Nat) : Prop where
  operand : Refuses (inner .operand).read (Begun BinaryOp.operandPrecedence bound)
  expression : Refuses (inner .expression).read (Begun BinaryOp.or.precedence bound)

theorem refuses_expect (kind : TokenKind) : Refuses (expect kind) (· = []) := by
  intro tokens stop stopped
  unfold expect at stopped
  split at stopped
  · cases stopped
    exact ⟨[], .here (fun _ => rfl) (by simp)⟩
  · split at stopped
    · cases stopped
    · rename_i token rest different
      cases stopped
      refine ⟨[], .here (fun _ => rfl) ?_⟩
      rintro _ ⟨⟩ others
      rw [expect, if_neg different]

theorem named_call_error {token opening : Token} {after : List Token} {stop : Stop}
    (opens : opening.kind = .leftParenthesis)
    (stopped : argumentList (inner .expression) after = .error stop) :
    named inner token (opening :: after) = .error stop := by
  simp only [named, if_pos opens, stopped]

theorem named_call_unclosed {token opening : Token} {after commas rest : List Token}
    {arguments : List (Phrase Token)} {stop : Stop} (opens : opening.kind = .leftParenthesis)
    (found : argumentList (inner .expression) after = .ok (arguments, commas, rest))
    (unclosed : expect .rightParenthesis rest = .error stop) :
    named inner token (opening :: after) = .error stop := by
  simp only [named, if_pos opens, found, unclosed]

theorem named_index_error {token opening : Token} {after : List Token} {stop : Stop}
    (opens : opening.kind = .leftBracket)
    (stopped : (inner .expression).read after = .error stop) :
    named inner token (opening :: after) = .error stop := by
  simp [named, opens, stopped]

theorem named_index_unclosed {token opening : Token} {after rest : List Token}
    {subscript : Phrase Token} {stop : Stop} (opens : opening.kind = .leftBracket)
    (found : (inner .expression).read after = .ok (subscript, rest))
    (unclosed : expect .rightBracket rest = .error stop) :
    named inner token (opening :: after) = .error stop := by
  simp [named, opens, found, unclosed]

theorem refuses_call (reads : ReadsInner inner bound) (refuses : RefusesInner inner bound)
    {token opening : Token} {after : List Token} {stop : Stop} (word : token.kind = .identifier)
    (free : Literal.ofWord? token.text = none) (opens : opening.kind = .leftParenthesis)
    (stopped : named inner token (opening :: after) = .error stop) :
    ∃ front, StopsAt (named inner token)
      (fun front => Begun (BinaryOp.operandPrecedence + 1) (bound + 1) (token :: front))
        (opening :: after) stop front := by
  simp only [named, if_pos opens] at stopped
  split at stopped
  · rename_i stop' stopped'
    cases stopped
    obtain ⟨front, stops⟩ := refuses_argumentList reads.expression refuses.expression stopped'
    exact ⟨_, stops.after [opening] (fun begun => begun.call word free opens)
      fun later stop begins => named_call_error opens⟩
  · rename_i arguments commas rest found
    split at stopped
    · rename_i stop' unclosed
      cases stopped
      rcases argumentList_cases (inner .expression) after with
        ⟨closing, others, rfl, closes, empty⟩ | same
      · -- An empty list is read only where it is closed.
        rw [empty] at found
        cases found
        rw [expect_of_kind closes] at unclosed
        cases unclosed
      · rw [same after fun _ member => member] at found
        obtain ⟨front, stops⟩ := refuses_expect _ unclosed
        rw [← argumentsFrom_tokens found]
        refine ⟨_, stops.after (opening :: weave (Phrase.tokensOfEach arguments) (commas.map ([·])))
          ?_ ?_⟩
        · rintro rfl
          rw [List.append_nil]
          obtain ⟨nonempty, are⟩ := argumentsFrom_sound reads.expression found
          have begun : ArgumentsBegun bound _ := ⟨arguments, commas, nonempty, are, List.prefix_rfl⟩
          exact begun.call word free opens
        · intro later stop begins unclosed
          have again := argumentList_again reads.expression found begins
          exact named_call_unclosed opens again unclosed
    · cases stopped

theorem refuses_index (reads : ReadsInner inner bound) (refuses : RefusesInner inner bound)
    {token opening : Token} {after : List Token} {stop : Stop} (word : token.kind = .identifier)
    (free : Literal.ofWord? token.text = none) (opens : opening.kind = .leftBracket)
    (stopped : named inner token (opening :: after) = .error stop) :
    ∃ front, StopsAt (named inner token)
      (fun front => Begun (BinaryOp.operandPrecedence + 1) (bound + 1) (token :: front))
        (opening :: after) stop front := by
  have notParenthesis : opening.kind ≠ .leftParenthesis := by
    rw [opens]
    decide
  simp only [named, if_neg notParenthesis, if_pos opens] at stopped
  split at stopped
  · rename_i stop' stopped'
    cases stopped
    obtain ⟨front, stops⟩ := refuses.expression stopped'
    exact ⟨_, stops.after [opening] (.index word free opens)
      fun later stop begins => named_index_error opens⟩
  · rename_i subscript rest found
    split at stopped
    · rename_i stop' unclosed
      cases stopped
      obtain ⟨front, stops⟩ := refuses_expect _ unclosed
      rw [← (inner .expression).read_tokens found]
      refine ⟨_, stops.after (opening :: subscript.tokens) ?_ ?_⟩
      · rintro rfl
        rw [List.append_nil]
        exact .index word free opens (.of_stands (reads.expression.sound found))
      · intro later stop begins unclosed
        exact named_index_unclosed opens (reads.expression.read_again found begins) unclosed
    · cases stopped

theorem refuses_named (reads : ReadsInner inner bound) (refuses : RefusesInner inner bound)
    {token : Token} (word : token.kind = .identifier) (free : Literal.ofWord? token.text = none) :
    Refuses (named inner token)
      fun front => Begun (BinaryOp.operandPrecedence + 1) (bound + 1) (token :: front) := by
  intro tokens stop stopped
  match tokens with
  | [] => cases stopped
  | opening :: after =>
      by_cases isCall : opening.kind = .leftParenthesis
      · exact refuses_call reads refuses word free isCall stopped
      · by_cases isIndex : opening.kind = .leftBracket
        · exact refuses_index reads refuses word free isIndex stopped
        · simp only [named, if_neg isCall, if_neg isIndex] at stopped
          cases stopped

theorem refuses_grouped (reads : ReadsInner inner bound) (refuses : RefusesInner inner bound)
    {opening : Token} (opens : opening.kind = .leftParenthesis) :
    Refuses (grouped inner opening)
      fun front => Begun (BinaryOp.operandPrecedence + 1) (bound + 1) (opening :: front) := by
  intro tokens stop stopped
  simp only [grouped] at stopped
  split at stopped
  · rename_i stop' stopped'
    cases stopped
    obtain ⟨front, stops⟩ := refuses.expression stopped'
    refine ⟨front, stops.within (.group opens) ?_⟩
    intro later stop begins stopped
    simp only [grouped, stopped]
  · rename_i phrase rest found
    split at stopped
    · rename_i stop' unclosed
      cases stopped
      obtain ⟨front, stops⟩ := refuses_expect _ unclosed
      rw [← (inner .expression).read_tokens found]
      refine ⟨_, stops.after phrase.tokens ?_ ?_⟩
      · rintro rfl
        rw [List.append_nil]
        exact .group opens (.of_stands (reads.expression.sound found))
      · intro later stop begins unclosed
        simp only [grouped, reads.expression.read_again found begins, unclosed]
    · cases stopped

/-- A primary stops at a token with which none begins, or else within what its first token
begins. -/
theorem refuses_primary (reads : ReadsInner inner bound) (refuses : RefusesInner inner bound) :
    Refuses (primary inner).read (Begun (BinaryOp.operandPrecedence + 1) (bound + 1)) := by
  intro tokens stop stopped
  match tokens with
  | [] =>
      cases stopped
      exact ⟨[], .here (fun _ => .nil Nat.le.refl) (by simp)⟩
  | token :: after =>
      simp only [primary] at stopped
      split at stopped
      · rename_i isLiteral
        split at stopped
        · cases stopped
        · rename_i invalid
          cases stopped
          refine ⟨[], .here (fun _ => .nil Nat.le.refl) ?_⟩
          rintro _ ⟨⟩ others
          simp only [primary, if_pos isLiteral, invalid]
      · rename_i notLiteral
        split at stopped
        · rename_i word
          split at stopped
          · cases stopped
          · rename_i free
            obtain ⟨front, stops⟩ := refuses_named reads refuses word free stopped
            refine ⟨_, stops.after [token] (fun begun => begun) ?_⟩
            intro later stop begins stopped
            simp only [primary, List.singleton_append, if_neg notLiteral, if_pos word, free,
              stopped]
        · rename_i notWord
          split at stopped
          · rename_i opens
            obtain ⟨front, stops⟩ := refuses_grouped reads refuses opens stopped
            refine ⟨_, stops.after [token] (fun begun => begun) ?_⟩
            intro later stop begins stopped
            simp only [primary, List.singleton_append, if_neg notLiteral, if_neg notWord,
              if_pos opens, stopped]
          · rename_i notOpening
            cases stopped
            refine ⟨[], .here (fun _ => .nil Nat.le.refl) ?_⟩
            rintro _ ⟨⟩ others
            simp only [primary, if_neg notLiteral, if_neg notWord, if_neg notOpening]

theorem refuses_unary (reads : ReadsInner inner bound) (refuses : RefusesInner inner bound) :
    Refuses (unary inner).read (Begun BinaryOp.operandPrecedence (bound + 1)) := by
  intro tokens stop stopped
  by_cases isUnary : ∃ token ∈ tokens.head?, UnaryOp.ofKind? token.kind ≠ none
  · obtain ⟨token, member, isUnary⟩ := isUnary
    obtain ⟨operator, isOperator⟩ := Option.ne_none_iff_exists'.mp isUnary
    obtain ⟨after, rfl⟩ := List.head?_eq_some_iff.mp member
    have writes := UnaryOp.ofKind?_eq_some_iff.mp isOperator
    simp only [unary, isOperator] at stopped
    split at stopped
    · rename_i stop' stopped'
      cases stopped
      obtain ⟨front, stops⟩ := refuses.operand stopped'
      refine ⟨_, stops.after [token] (.unary writes.symm) ?_⟩
      intro later stop begins stopped
      simp only [unary, List.singleton_append, isOperator, stopped]
    · cases stopped
  · have others : ∀ token ∈ tokens.head?, UnaryOp.ofKind? token.kind = none := by
      simpa using isUnary
    rw [read_unary_of_not others] at stopped
    obtain ⟨front, stops⟩ := refuses_primary reads refuses stopped
    refine ⟨front, stops.within .lower ?_⟩
    intro later stop begins stopped
    rw [read_unary_of_not fun token member => others token (begins token member), stopped]

/-! ## Expressions -/

theorem refuses_disjunction (reads : ReadsInner inner bound) (refuses : RefusesInner inner bound) :
    Refuses (disjunction inner).read (Begun BinaryOp.or.precedence (bound + 1)) := by
  have product : Refuses (product inner).read (Begun BinaryOp.multiply.precedence (bound + 1)) :=
    refuses_chain (.unary reads) (refuses_unary reads refuses) (by decide)
  have sum : Refuses (sum inner).read (Begun BinaryOp.add.precedence (bound + 1)) :=
    refuses_chain (.product reads) product (by decide)
  have relation :
      Refuses (relation inner).read (Begun BinaryOp.comparisonPrecedence (bound + 1)) :=
    refuses_comparison (.sum reads) sum
  have conjunction :
      Refuses (conjunction inner).read (Begun BinaryOp.and.precedence (bound + 1)) :=
    refuses_chain (.relation reads) relation (by decide)
  exact refuses_chain (.conjunction reads) conjunction (by decide)

/-- Where no more levels may be entered, that is all that is wrong. -/
theorem refuses_refused (limit : Nat) (completable : List Token → Prop) :
    Refuses (refused (.nestingTooDeep limit)).read completable := by
  intro tokens stop stopped
  cases stopped
  exact ⟨[], .here (fun known => absurd rfl (known limit)) fun _ _ _ => rfl⟩

theorem refusesInner_nested (limit allowance : Nat) :
    RefusesInner (nested limit allowance) allowance := by
  induction allowance with
  | zero => exact ⟨refuses_refused limit _, refuses_refused limit _⟩
  | succ allowance ih =>
      have reads := readsInner_nested limit allowance
      exact ⟨refuses_unary reads ih, refuses_disjunction reads ih⟩

theorem refuses_expression (limit : Nat) :
    Refuses (expression limit).read (Begun BinaryOp.or.precedence (limit + 1)) :=
  refuses_disjunction (readsInner_nested limit limit) (refusesInner_nested limit limit)

end Production

end JassExpr
