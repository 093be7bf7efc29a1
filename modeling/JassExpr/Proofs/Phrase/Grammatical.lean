import JassExpr.Phrase.Grammar
import JassExpr.Proofs.Phrase.Weave

/-!
# Grammatical phrases

A phrase keeps all its tokens, but nothing in its type makes it follow the grammar. It is
grammatical when each token is of the kind that its place asks for and each operand binds as
tightly as it has to. How deep a phrase is nested is counted apart from that, since only reading
has a limit. The tokens may carry lexemes in any way, so that the same notion serves for phrases
with places and for phrases without.
-/

namespace JassExpr

/-- Whether a token of a kind can begin a phrase. -/
def TokenKind.beginsPhrase : TokenKind → Bool
  | .identifier | .leftParenthesis | .not | .minus | .plus => true
  | kind => kind.isLiteral

theorem TokenKind.beginsPhrase_of_isLiteral {kind : TokenKind} (isLiteral : kind.isLiteral = true) :
    kind.beginsPhrase = true := by
  cases kind <;> first | rfl | cases isLiteral

theorem TokenKind.ne_of_isLiteral {kind another : TokenKind} (isLiteral : kind.isLiteral = true)
    (notLiteral : another.isLiteral = false) : kind ≠ another := by
  rintro rfl
  rw [isLiteral] at notLiteral
  cases notLiteral

theorem BinaryOp.atPrecedence?_eq_none_iff {precedence : Nat} {kind : TokenKind} :
    atPrecedence? precedence kind = none ↔
      ∀ operator, ofKind? kind = some operator → operator.precedence ≠ precedence := by
  simp [atPrecedence?, Option.filter_eq_none_iff]

theorem BinaryOp.leftPrecedence_of_ne {operator : BinaryOp}
    (groups : operator.precedence ≠ comparisonPrecedence) :
    operator.leftPrecedence = operator.precedence := by
  simp [leftPrecedence, isRelational, groups]

theorem BinaryOp.leftPrecedence_of_eq {operator : BinaryOp}
    (compares : operator.precedence = comparisonPrecedence) :
    operator.leftPrecedence = operator.precedence + 1 := by
  simp [leftPrecedence, isRelational, compares]

theorem BinaryOp.precedence_lt_operandPrecedence (operator : BinaryOp) :
    operator.precedence < operandPrecedence := by
  cases operator <;> decide

namespace Phrase

variable {τ : Type}

/-- How tightly a phrase binds, by what stands outermost in it: a binary operator, a unary
operator, or neither. -/
def level : Phrase τ → Nat
  | binary operator _ _ _ => operator.precedence
  | unary _ _ _ => BinaryOp.operandPrecedence
  | _ => BinaryOp.operandPrecedence + 1

mutual

/-- How many constructs that lie one level deeper than what they stand in are nested at most. -/
def depth : Phrase τ → Nat
  | literal _ _ => 0
  | name _ _ => 0
  | group _ inner _ => inner.depth + 1
  | unary _ _ operand => operand.depth + 1
  | binary _ left _ right => max left.depth right.depth
  | call _ _ _ arguments _ _ => depthOfEach arguments
  | index _ _ _ subscript _ => subscript.depth + 1

/-- How deep the deepest of some arguments makes their call. -/
def depthOfEach : List (Phrase τ) → Nat
  | [] => 0
  | first :: rest => max (first.depth + 1) (depthOfEach rest)

end

/-- Each token of a phrase is of the kind that its place asks for, and each operand binds as
tightly as it has to. -/
inductive Grammatical (lexeme : τ → Lexeme) : Phrase τ → Prop
  | literal {token : τ} {value : Literal}
      (reads : Literal.ofLexeme? (lexeme token) = some value) :
      Grammatical lexeme (.literal token value)
  | constant {token : τ} {value : Literal} (word : (lexeme token).kind = .identifier)
      (reads : Literal.ofWord? (lexeme token).text = some value) :
      Grammatical lexeme (.literal token value)
  | name {token : τ} {name : String} (word : (lexeme token).kind = .identifier)
      (free : Literal.ofWord? name = none) (same : (lexeme token).text = name) :
      Grammatical lexeme (.name token name)
  | group {opening closing : τ} {inner : Phrase τ}
      (opens : (lexeme opening).kind = .leftParenthesis)
      (closes : (lexeme closing).kind = .rightParenthesis)
      (inside : Grammatical lexeme inner) :
      Grammatical lexeme (.group opening inner closing)
  | unary {operator : UnaryOp} {token : τ} {operand : Phrase τ}
      (writes : (lexeme token).kind = operator.kind)
      (tight : BinaryOp.operandPrecedence ≤ operand.level)
      (inside : Grammatical lexeme operand) :
      Grammatical lexeme (.unary operator token operand)
  | binary {operator : BinaryOp} {token : τ} {left right : Phrase τ}
      (writes : (lexeme token).kind = operator.kind)
      (tightLeft : operator.leftPrecedence ≤ left.level)
      (tightRight : operator.rightPrecedence ≤ right.level)
      (onLeft : Grammatical lexeme left) (onRight : Grammatical lexeme right) :
      Grammatical lexeme (.binary operator left token right)
  | call {callee opening closing : τ} {name : String} {arguments : List (Phrase τ)}
      {commas : List τ} (word : (lexeme callee).kind = .identifier)
      (free : Literal.ofWord? name = none) (same : (lexeme callee).text = name)
      (opens : (lexeme opening).kind = .leftParenthesis)
      (closes : (lexeme closing).kind = .rightParenthesis)
      (separate : ∀ comma ∈ commas, (lexeme comma).kind = .comma)
      (count : commas.length = arguments.length - 1)
      (inside : ∀ argument ∈ arguments, Grammatical lexeme argument) :
      Grammatical lexeme (.call callee name opening arguments commas closing)
  | index {array opening closing : τ} {name : String} {subscript : Phrase τ}
      (word : (lexeme array).kind = .identifier)
      (free : Literal.ofWord? name = none) (same : (lexeme array).text = name)
      (opens : (lexeme opening).kind = .leftBracket)
      (closes : (lexeme closing).kind = .rightBracket)
      (inside : Grammatical lexeme subscript) :
      Grammatical lexeme (.index array name opening subscript closing)

/-- Whether a phrase ends in a variable, which a parenthesis or bracket after it would make a call
or an element. -/
def endsInName : Phrase τ → Bool
  | name _ _ => true
  | unary _ _ operand => operand.endsInName
  | binary _ _ _ right => right.endsInName
  | _ => false

theorem one_le_level (phrase : Phrase τ) : 1 ≤ phrase.level := by
  cases phrase with
  | binary operator left token right =>
      cases operator <;> simp [level, BinaryOp.precedence]
  | _ => simp [level, BinaryOp.operandPrecedence]

theorem exists_binary_of_level_lt {phrase : Phrase τ}
    (loose : phrase.level < BinaryOp.operandPrecedence) :
    ∃ operator left token right, phrase = binary operator left token right := by
  cases phrase with
  | binary operator left token right => exact ⟨operator, left, token, right, rfl⟩
  | _ => exact absurd loose (by simp [level, BinaryOp.operandPrecedence])

theorem depthOfEach_lt_iff {phrases : List (Phrase τ)} {bound : Nat} :
    depthOfEach phrases < bound + 1 ↔ ∀ phrase ∈ phrases, phrase.depth < bound := by
  induction phrases with
  | nil => simp [depthOfEach]
  | cons first rest ih =>
      rw [List.forall_mem_cons, ← ih, depthOfEach]
      omega

/-- A phrase begins with a token that can begin one. -/
theorem Grammatical.beginsPhrase {lexeme : τ → Lexeme} {phrase : Phrase τ}
    (grammatical : phrase.Grammatical lexeme) :
    (lexeme phrase.first).kind.beginsPhrase = true := by
  induction grammatical with
  | literal reads =>
      exact TokenKind.beginsPhrase_of_isLiteral (Literal.isLiteral_of_ofLexeme? reads)
  | group opens closes inside ih =>
      simp only [first, opens]
      rfl
  | @unary operator token operand writes tight inside ih =>
      simp only [first, writes]
      cases operator <;> rfl
  | binary writes tightLeft tightRight onLeft onRight ihLeft ihRight => exact ihLeft
  | constant word | name word | call word | index word =>
      simp only [first, word]
      rfl

/-- What begins with an operator in front of an operand is that operator with its operand, or some
operator between two operands. -/
theorem Grammatical.ofKind?_first_eq_none {lexeme : τ → Lexeme} {phrase : Phrase τ}
    (grammatical : phrase.Grammatical lexeme)
    (tight : BinaryOp.operandPrecedence < phrase.level) :
    UnaryOp.ofKind? (lexeme phrase.first).kind = none := by
  cases grammatical with
  | literal reads =>
      have isLiteral := Literal.isLiteral_of_ofLexeme? reads
      apply Option.eq_none_iff_forall_ne_some.mpr
      intro operator isOperator
      rw [UnaryOp.ofKind?_eq_some_iff] at isOperator
      simp only [first] at isOperator
      rw [← isOperator] at isLiteral
      cases operator <;> cases isLiteral
  | group opens closes inside => simp [first, opens, UnaryOp.ofKind?]
  | unary writes loose inside => exact absurd tight (Nat.lt_irrefl _)
  | binary writes tightLeft tightRight onLeft onRight =>
      exact absurd tight (Nat.not_lt_of_gt (BinaryOp.precedence_lt_operandPrecedence _))
  | constant word reads => simp [first, word, UnaryOp.ofKind?]
  | name word free same => simp [first, word, UnaryOp.ofKind?]
  | call word free same opens closes separate count inside =>
      simp [first, word, UnaryOp.ofKind?]
  | index word free same opens closes inside => simp [first, word, UnaryOp.ofKind?]

/-- What follows a phrase lets it end as an operand of a level: it is no operator that binds as
tightly as that, and nothing that would make more of a variable at the end. -/
structure EndsBefore (level : Nat) (phrase : Phrase Token) (rest : List Token) : Prop where
  operator : ∀ token ∈ rest.head?, ∀ operator, BinaryOp.ofKind? token.kind = some operator →
    operator.precedence < level
  bracket : phrase.endsInName = true → ∀ token ∈ rest.head?,
    token.kind ≠ .leftParenthesis ∧ token.kind ≠ .leftBracket

/-- Operators never bind as tightly as operands of unary operators do. -/
theorem EndsBefore.of_tight {level : Nat} {phrase : Phrase Token} {rest : List Token}
    (tight : BinaryOp.operandPrecedence ≤ level)
    (bracket : phrase.endsInName = true → ∀ token ∈ rest.head?,
      token.kind ≠ .leftParenthesis ∧ token.kind ≠ .leftBracket) :
    phrase.EndsBefore level rest where
  operator _ _ operator _ := Nat.lt_of_lt_of_le operator.precedence_lt_operandPrecedence tight
  bracket := bracket

theorem endsBefore_binary_iff {level : Nat} {operator : BinaryOp} {left right : Phrase Token}
    {token : Token} {rest : List Token} :
    (binary operator left token right).EndsBefore level rest ↔ right.EndsBefore level rest :=
  ⟨fun ends => ⟨ends.operator, ends.bracket⟩, fun ends => ⟨ends.operator, ends.bracket⟩⟩

theorem endsBefore_unary_iff {level : Nat} {operator : UnaryOp} {operand : Phrase Token}
    {token : Token} {rest : List Token} :
    (unary operator token operand).EndsBefore level rest ↔ operand.EndsBefore level rest :=
  ⟨fun ends => ⟨ends.operator, ends.bracket⟩, fun ends => ⟨ends.operator, ends.bracket⟩⟩

/-- A grammatical phrase of a level that is not too deep and can end where it does. -/
structure Stands (level bound : Nat) (phrase : Phrase Token) (rest : List Token) : Prop where
  grammatical : phrase.Grammatical Token.toLexeme
  tight : level ≤ phrase.level
  shallow : phrase.depth < bound
  ends : phrase.EndsBefore level rest

/-- A primary that is no variable can stand before anything. -/
theorem Stands.of_closed {bound : Nat} {phrase : Phrase Token} {rest : List Token}
    (grammatical : phrase.Grammatical Token.toLexeme)
    (tight : phrase.level = BinaryOp.operandPrecedence + 1) (shallow : phrase.depth < bound)
    (closed : phrase.endsInName = false) :
    phrase.Stands (BinaryOp.operandPrecedence + 1) bound rest :=
  ⟨grammatical, Nat.le_of_eq tight.symm, shallow, .of_tight (Nat.le_succ _) (by simp [closed])⟩

theorem EndsBefore.nil {level : Nat} {phrase : Phrase Token} : phrase.EndsBefore level [] where
  operator := by simp
  bracket := by simp

/-- A phrase can end before what begins with no operator between two operands, unless it ends in a
variable and that would make more of it. -/
theorem EndsBefore.of_notOperator {level : Nat} {phrase : Phrase Token} {token : Token}
    {rest : List Token} (notOperator : BinaryOp.ofKind? token.kind = none)
    (bracket : phrase.endsInName = true →
      token.kind ≠ .leftParenthesis ∧ token.kind ≠ .leftBracket) :
    phrase.EndsBefore level (token :: rest) where
  operator := by
    rintro _ ⟨⟩ operator isOperator
    rw [notOperator] at isOperator
    cases isOperator
  bracket := by
    rintro isName _ ⟨⟩
    exact bracket isName

/-- A phrase can end before looser operators when it is not of the next looser level either. -/
theorem EndsBefore.lower {level : Nat} {phrase : Phrase Token} {rest : List Token}
    (ends : phrase.EndsBefore (level + 1) rest)
    (others : ∀ token ∈ rest.head?, BinaryOp.atPrecedence? level token.kind = none) :
    phrase.EndsBefore level rest where
  operator token member operator isOperator := by
    have loose := ends.operator token member operator isOperator
    have apart := BinaryOp.atPrecedence?_eq_none_iff.mp (others token member) operator isOperator
    omega
  bracket := ends.bracket

theorem EndsBefore.raise {level : Nat} {phrase : Phrase Token} {rest : List Token}
    (ends : phrase.EndsBefore level rest) : phrase.EndsBefore (level + 1) rest where
  operator token member operator isOperator :=
    Nat.lt_succ_of_lt (ends.operator token member operator isOperator)
  bracket := ends.bracket

theorem EndsBefore.atPrecedence?_eq_none {level : Nat} {phrase : Phrase Token}
    {rest : List Token} (ends : phrase.EndsBefore level rest) :
    ∀ token ∈ rest.head?, BinaryOp.atPrecedence? level token.kind = none := by
  intro token member
  apply BinaryOp.atPrecedence?_eq_none_iff.mpr
  intro operator isOperator same
  have loose := ends.operator token member operator isOperator
  omega

/-- A phrase can end before any operator that binds less tightly than its level. -/
theorem EndsBefore.of_operator {level : Nat} {phrase : Phrase Token} {token : Token}
    {rest : List Token} {operator : BinaryOp} (writes : token.kind = operator.kind)
    (loose : operator.precedence < level) :
    phrase.EndsBefore level (token :: rest) where
  operator := by
    rintro _ ⟨⟩ other isOperator
    rw [BinaryOp.ofKind?_eq_some_iff, writes] at isOperator
    have same : other = operator := by
      cases other <;> cases operator <;> simp [BinaryOp.kind] at isOperator ⊢
    exact same ▸ loose
  bracket := by
    rintro - _ ⟨⟩
    rw [writes]
    cases operator <;> decide

end Phrase

end JassExpr
