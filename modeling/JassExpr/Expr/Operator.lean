import JassExpr.Token.Kind

/-!
# Operators

An operator is written as a token of one kind. The precedence of a binary operator is a number,
and of two operators the one with the larger number binds more tightly. All of them group to the
left except for the comparisons, which do not group at all.
-/

namespace JassExpr

/-- The operators in front of one operand. -/
inductive UnaryOp where
  | not
  | minus
  | plus
deriving DecidableEq

namespace UnaryOp

def kind : UnaryOp → TokenKind
  | not => .not
  | minus => .minus
  | plus => .plus

def ofKind? : TokenKind → Option UnaryOp
  | .not => some not
  | .minus => some minus
  | .plus => some plus
  | _ => none

def spelling : UnaryOp → String
  | not => "not"
  | minus => "-"
  | plus => "+"

theorem ofKind?_eq_some_iff {kind : TokenKind} {operator : UnaryOp} :
    ofKind? kind = some operator ↔ operator.kind = kind := by
  cases kind <;> cases operator <;> simp [ofKind?, UnaryOp.kind]

theorem spelling?_kind (operator : UnaryOp) :
    operator.kind.spelling? = some operator.spelling := by
  cases operator <;> rfl

end UnaryOp

/-- The operators between two operands. -/
inductive BinaryOp where
  | or
  | and
  | greater
  | greaterEqual
  | less
  | lessEqual
  | equal
  | notEqual
  | add
  | subtract
  | multiply
  | divide
deriving DecidableEq

namespace BinaryOp

def kind : BinaryOp → TokenKind
  | or => .or
  | and => .and
  | greater => .greater
  | greaterEqual => .greaterEqual
  | less => .less
  | lessEqual => .lessEqual
  | equal => .equal
  | notEqual => .notEqual
  | add => .plus
  | subtract => .minus
  | multiply => .star
  | divide => .slash

def ofKind? : TokenKind → Option BinaryOp
  | .or => some or
  | .and => some and
  | .greater => some greater
  | .greaterEqual => some greaterEqual
  | .less => some less
  | .lessEqual => some lessEqual
  | .equal => some equal
  | .notEqual => some notEqual
  | .plus => some add
  | .minus => some subtract
  | .star => some multiply
  | .slash => some divide
  | _ => none

def spelling : BinaryOp → String
  | or => "or"
  | and => "and"
  | greater => ">"
  | greaterEqual => ">="
  | less => "<"
  | lessEqual => "<="
  | equal => "=="
  | notEqual => "!="
  | add => "+"
  | subtract => "-"
  | multiply => "*"
  | divide => "/"

def precedence : BinaryOp → Nat
  | or => 1
  | and => 2
  | greater | greaterEqual | less | lessEqual | equal | notEqual => 3
  | add | subtract => 4
  | multiply | divide => 5

/-- The precedence that the comparisons share. -/
def comparisonPrecedence : Nat :=
  3

/-- The precedence of everything that is not made by a binary operator. -/
def operandPrecedence : Nat :=
  6

def isRelational (operator : BinaryOp) : Bool :=
  operator.precedence == comparisonPrecedence

/-- The least precedence that an operand on the left can have without parentheses. Operators
group to the left, but one comparison is no operand of another. -/
def leftPrecedence (operator : BinaryOp) : Nat :=
  if operator.isRelational then operator.precedence + 1 else operator.precedence

/-- The least precedence that an operand on the right can have without parentheses. -/
def rightPrecedence (operator : BinaryOp) : Nat :=
  operator.precedence + 1

/-- The operator of a given precedence that a kind of token writes. -/
def atPrecedence? (precedence : Nat) (kind : TokenKind) : Option BinaryOp :=
  (ofKind? kind).filter (·.precedence == precedence)

theorem ofKind?_eq_some_iff {kind : TokenKind} {operator : BinaryOp} :
    ofKind? kind = some operator ↔ operator.kind = kind := by
  cases kind <;> cases operator <;> simp [ofKind?, BinaryOp.kind]

theorem atPrecedence?_eq_some_iff {precedence : Nat} {kind : TokenKind} {operator : BinaryOp} :
    atPrecedence? precedence kind = some operator ↔
      operator.kind = kind ∧ operator.precedence = precedence := by
  simp [atPrecedence?, Option.filter_eq_some_iff, ofKind?_eq_some_iff]

theorem spelling?_kind (operator : BinaryOp) :
    operator.kind.spelling? = some operator.spelling := by
  cases operator <;> rfl

end BinaryOp

end JassExpr
