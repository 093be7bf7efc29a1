import JassExpr.Proofs.Phrase.Simulation

/-!
# The reasons for a refusal

Whatever is read, reading stops for one of five reasons, and the token that is refused shows which.
Nothing else than a literal without a value is ever called an invalid literal. Each production takes
over the stops of those it is made of and adds few of its own.
-/

namespace JassExpr

/-- The refused token gives the reason of a stop. -/
inductive Stop.Justified : Stop → Prop
  | expectedExpression {rest : List Token}
      (beginsNone : ∀ token ∈ rest.head?, token.kind.beginsPhrase = false) :
      Justified ⟨.expectedExpression, rest⟩
  | expected {kind : TokenKind} {rest : List Token}
      (another : ∀ token ∈ rest.head?, token.kind ≠ kind) : Justified ⟨.expected kind, rest⟩
  | chainedComparison {second : BinaryOp} {rest : List Token}
      (compares : Production.comparison? rest = some second) : Justified ⟨.chainedComparison, rest⟩
  | invalidLiteral {token : Token} {rest : List Token} (isLiteral : token.kind.isLiteral = true)
      (invalid : Literal.ofLexeme? token.toLexeme = none) :
      Justified ⟨.invalidLiteral token.text, token :: rest⟩
  | nestingTooDeep {limit : Nat} {rest : List Token} : Justified ⟨.nestingTooDeep limit, rest⟩

/-- An outcome is no stop, or one with a reason. -/
def Justifies {α : Type} (outcome : Except Stop α) : Prop :=
  ∀ stop, outcome = .error stop → stop.Justified

namespace Justifies

variable {α β : Type}

theorem read (value : α) : Justifies (.ok value) := by
  intro stop stopped
  cases stopped

theorem refused {stop : Stop} (justified : stop.Justified) :
    Justifies (.error stop : Except Stop α) := by
  intro _ same
  cases same
  exact justified

/-- What is done next with a value adds the stops of that. -/
theorem bind {outcome : Except Stop α} {next : α → Except Stop β} (first : Justifies outcome)
    (others : ∀ value, Justifies (next value)) : Justifies (outcome.bind next) := by
  cases outcome with
  | ok value => exact others value
  | error stop => exact .refused (first stop rfl)

end Justifies

namespace Production

variable {operand argument : Production} {inner : Construct → Production} {precedence : Nat}

/-- A production stops with a reason only. -/
def StopsJustified (production : Production) : Prop :=
  ∀ tokens, Justifies (production.read tokens)

theorem justifies_expect (kind : TokenKind) (tokens : List Token) :
    Justifies (expect kind tokens) := by
  cases tokens with
  | nil => exact .refused (.expected (by simp))
  | cons token rest =>
      rw [expect]
      split
      · exact .read (token, rest)
      · rename_i another
        exact .refused (.expected (by simpa using another))

theorem justifies_chainFrom (justified : operand.StopsJustified) (left : Phrase Token)
    (tokens : List Token) : Justifies (chainFrom precedence operand left tokens) := by
  fun_induction chainFrom precedence operand left tokens with
  | case1 left => exact .read (left, [])
  | case2 left token after notOperator => exact .read (left, token :: after)
  | case3 left token after operator isOperator stop stopped =>
      exact .refused (justified after stop stopped)
  | case4 left token after operator isOperator right rest reading ih => exact ih

theorem StopsJustified.chain (justified : operand.StopsJustified) :
    (chain precedence operand).StopsJustified := by
  intro tokens
  rw [chain_eq_bind]
  exact (justified tokens).bind fun found => justifies_chainFrom justified found.1 found.2

theorem StopsJustified.comparison (justified : operand.StopsJustified) :
    (comparison operand).StopsJustified := by
  intro tokens
  rw [comparison_eq_bind]
  apply (justified tokens).bind
  rintro ⟨left, rest⟩
  cases rest with
  | nil => exact .read (left, [])
  | cons token after =>
      simp only [comparisonFrom]
      split
      · exact .read (left, token :: after)
      · apply (justified after).bind
        rintro ⟨right, others⟩
        dsimp only
        split
        · exact .read _
        · rename_i second isSecond
          exact .refused (.chainedComparison isSecond)

theorem justifies_argumentsFrom (justified : argument.StopsJustified) (tokens : List Token) :
    Justifies (argumentsFrom argument tokens) := by
  fun_induction argumentsFrom argument tokens with
  | case1 tokens stop stopped => exact .refused (justified tokens stop stopped)
  | case2 tokens first reading => exact .read _
  | case3 tokens first token after reading isComma stop stopped ih =>
      exact .refused (ih stop stopped)
  | case4 tokens first token after reading isComma others commas rest readingOthers ih =>
      exact .read _
  | case5 tokens first token after reading notComma => exact .read _

theorem justifies_argumentList (justified : argument.StopsJustified) (tokens : List Token) :
    Justifies (argumentList argument tokens) := by
  cases tokens with
  | nil => exact justifies_argumentsFrom justified []
  | cons token after =>
      rw [argumentList]
      split
      · exact .read _
      · exact justifies_argumentsFrom justified (token :: after)

theorem justifies_named (justified : ∀ construct, (inner construct).StopsJustified)
    (token : Token) (tokens : List Token) : Justifies (named inner token tokens) := by
  cases tokens with
  | nil => exact .read _
  | cons opening after =>
      by_cases parenthesis : opening.kind = .leftParenthesis
      · rw [named_call_eq_bind parenthesis]
        apply (justifies_argumentList (justified .expression) after).bind
        intro found
        exact (justifies_expect .rightParenthesis found.2.2).bind fun closed => .read _
      · by_cases bracket : opening.kind = .leftBracket
        · rw [named_index_eq_bind bracket]
          apply (justified .expression after).bind
          intro found
          exact (justifies_expect .rightBracket found.2).bind fun closed => .read _
        · simp only [named, if_neg parenthesis, if_neg bracket]
          exact .read _

theorem justifies_grouped (justified : ∀ construct, (inner construct).StopsJustified)
    (opening : Token) (tokens : List Token) : Justifies (grouped inner opening tokens) := by
  rw [grouped_eq_bind]
  apply (justified .expression tokens).bind
  intro found
  exact (justifies_expect .rightParenthesis found.2).bind fun closed => .read _

/-- A primary that does not begin with a unary operator stops at a token that begins nothing, or
within what its first token begins. -/
theorem justifies_primary (justified : ∀ construct, (inner construct).StopsJustified)
    {tokens : List Token} (others : ∀ token ∈ tokens.head?, UnaryOp.ofKind? token.kind = none) :
    Justifies ((primary inner).read tokens) := by
  cases tokens with
  | nil => exact .refused (.expectedExpression (by simp))
  | cons token after =>
      simp only [primary]
      split
      · rename_i isLiteral
        split
        · exact .read _
        · rename_i invalid
          exact .refused (.invalidLiteral isLiteral invalid)
      · rename_i notLiteral
        split
        · split
          · exact .read _
          · exact justifies_named justified token after
        · rename_i notWord
          split
          · exact justifies_grouped justified token after
          · rename_i notOpening
            have notUnary := others token rfl
            refine .refused (.expectedExpression ?_)
            rintro _ ⟨⟩
            cases kind : token.kind <;> simp_all [TokenKind.beginsPhrase, TokenKind.isLiteral,
              UnaryOp.ofKind?]

theorem StopsJustified.unary (justified : ∀ construct, (inner construct).StopsJustified) :
    (unary inner).StopsJustified := by
  intro tokens
  by_cases isUnary : ∃ token ∈ tokens.head?, UnaryOp.ofKind? token.kind ≠ none
  · obtain ⟨token, member, isUnary⟩ := isUnary
    obtain ⟨operator, isOperator⟩ := Option.ne_none_iff_exists'.mp isUnary
    obtain ⟨after, rfl⟩ := List.head?_eq_some_iff.mp member
    rw [unary_eq_bind isOperator]
    exact (justified .operand after).bind fun found => .read _
  · have others : ∀ token ∈ tokens.head?, UnaryOp.ofKind? token.kind = none := by
      simpa using isUnary
    rw [read_unary_of_not others]
    exact justifies_primary justified others

theorem StopsJustified.disjunction (justified : ∀ construct, (inner construct).StopsJustified) :
    (disjunction inner).StopsJustified :=
  .chain (.chain (.comparison (.chain (.chain (.unary justified)))))

theorem stopsJustified_nested (limit allowance : Nat) (construct : Construct) :
    (nested limit allowance construct).StopsJustified := by
  induction allowance generalizing construct with
  | zero => exact fun tokens => .refused .nestingTooDeep
  | succ allowance ih =>
      cases construct with
      | operand => exact .unary ih
      | expression => exact .disjunction ih

theorem stopsJustified_expression (limit : Nat) : (expression limit).StopsJustified :=
  .disjunction (stopsJustified_nested limit limit)

/-- A literal without a value is refused wherever an expression has to begin. -/
theorem read_expression_invalid {limit : Nat} {token : Token} {rest : List Token}
    (isLiteral : token.kind.isLiteral = true)
    (invalid : Literal.ofLexeme? token.toLexeme = none) :
    (expression limit).read (token :: rest) =
      .error ⟨.invalidLiteral token.text, token :: rest⟩ := by
  have notUnary : UnaryOp.ofKind? token.kind = none := by
    cases kind : token.kind <;> simp_all [TokenKind.isLiteral, UnaryOp.ofKind?]
  have refused (inner : Construct → Production) : (unary inner).read (token :: rest) =
      .error ⟨.invalidLiteral token.text, token :: rest⟩ := by
    rw [read_unary_of_not (by simpa using notUnary)]
    simp only [primary, if_pos isLiteral, invalid]
  simp only [expression, disjunction, conjunction, relation, sum, product, chain_eq_bind,
    comparison_eq_bind, refused, Except.bind]

end Production

theorem Reading.justifies_result {production : Production}
    (justified : production.StopsJustified) (tokens : List Token) :
    Justifies (ofTokens production tokens).result := by
  fun_induction ofTokens production tokens with
  | case1 => exact .read []
  | case2 token others stop stopped => exact .refused (justified _ stop stopped)
  | case3 token others phrase rest found ih =>
      rw [result_after]
      exact ih.bind fun phrases => .read (phrase :: phrases)

theorem parseWith_invalid {limit : Nat} {token : Token} {rest : List Token}
    (isLiteral : token.kind.isLiteral = true)
    (invalid : Literal.ofLexeme? token.toLexeme = none) :
    parseWith limit (token :: rest) =
      .error ⟨.invalidLiteral token.text, some token, token.span⟩ := by
  rw [parseWith_eq_result, Reading.result_of_error (by simp)
    (Production.read_expression_invalid isLiteral invalid)]
  rfl

/-- Every syntax error is that of a stop within the tokens, and the refused token gives its
reason. -/
theorem exists_stop_of_parseWith {limit : Nat} {tokens : List Token} {error : SyntaxError}
    (failed : parseWith limit tokens = .error error) :
    ∃ (front : List Token) (stop : Stop), front ++ stop.rest = tokens ∧ stop.Justified ∧
      stop.error tokens = error := by
  rw [parseWith_eq_result] at failed
  split at failed
  · rename_i stop stopped
    obtain ⟨front, stops⟩ := Reading.refuses_result limit stopped
    have justified := Reading.justifies_result (Production.stopsJustified_expression limit) tokens
    exact ⟨front, stop, stops.whole, justified stop stopped, Except.error.inj failed⟩
  · cases failed

end JassExpr
