import JassExpr.Phrase.Basic

/-!
# The canonical phrase of an expression

Every expression has one phrase that writes it with the parentheses it needs and with no others.
An operand needs them when it binds less tightly than its place asks for.
-/

namespace JassExpr

/-- Puts the phrase of an expression into parentheses if the expression binds less tightly than
its place asks for. -/
def Phrase.groupBelow (needed : Nat) (expr : Expr) (phrase : Phrase Lexeme) : Phrase Lexeme :=
  if expr.precedence < needed then
    .group (Lexeme.fixed .leftParenthesis) phrase (Lexeme.fixed .rightParenthesis)
  else
    phrase

namespace Expr

mutual

/-- The phrase that writes an expression with the fewest parentheses. -/
def canonical : Expr → Phrase Lexeme
  | literal value => .literal value.lexeme value
  | name identifier => .name (Lexeme.valued .identifier identifier) identifier
  | unary operator operand =>
      .unary operator (Lexeme.fixed operator.kind)
        (.groupBelow BinaryOp.operandPrecedence operand operand.canonical)
  | binary operator left right =>
      .binary operator (.groupBelow operator.leftPrecedence left left.canonical)
        (Lexeme.fixed operator.kind)
        (.groupBelow operator.rightPrecedence right right.canonical)
  | call function arguments =>
      .call (Lexeme.valued .identifier function) function (Lexeme.fixed .leftParenthesis)
        (canonicalOfEach arguments)
        (List.replicate (arguments.length - 1) (Lexeme.fixed .comma))
        (Lexeme.fixed .rightParenthesis)
  | index array subscript =>
      .index (Lexeme.valued .identifier array) array (Lexeme.fixed .leftBracket)
        subscript.canonical (Lexeme.fixed .rightBracket)

def canonicalOfEach : List Expr → List (Phrase Lexeme)
  | [] => []
  | first :: rest => first.canonical :: canonicalOfEach rest

end

theorem expr_groupBelow (needed : Nat) (expr : Expr) (phrase : Phrase Lexeme) :
    (Phrase.groupBelow needed expr phrase).expr = phrase.expr := by
  unfold Phrase.groupBelow
  split <;> rfl

theorem canonicalOfEach_eq_map (exprs : List Expr) :
    canonicalOfEach exprs = exprs.map canonical := by
  induction exprs with
  | nil => rfl
  | cons first rest ih => simp [canonicalOfEach, ih]

/-- The canonical phrase of an expression writes that expression. -/
@[simp]
theorem expr_canonical (expr : Expr) : expr.canonical.expr = expr := by
  induction expr with
  | literal value => rfl
  | name name => rfl
  | unary operator operand ih => simp [canonical, Phrase.expr, expr_groupBelow, ih]
  | binary operator left right ihLeft ihRight =>
      simp [canonical, Phrase.expr, expr_groupBelow, ihLeft, ihRight]
  | call name arguments ih =>
      simp only [canonical, Phrase.expr, Phrase.exprOfEach_eq_map, canonicalOfEach_eq_map,
        List.map_map, Expr.call.injEq, true_and]
      exact (List.map_congr_left ih).trans (List.map_id arguments)
  | index name subscript ih => simp [canonical, Phrase.expr, ih]

end Expr

end JassExpr
