import JassExpr.Expr.Basic

/-!
# Expressions as lists

The shape of an expression is shown as a list in parentheses for each operator, call and index,
with the operator or a word for the form in front. Every group is explicit, so the text tells
the tree.
-/

namespace JassExpr

namespace Expr

mutual

/-- The list form of an expression. -/
def sexpr : Expr → String
  | literal value => value.spell
  | name identifier => identifier
  | unary operator operand => "(" ++ operator.spelling ++ " " ++ operand.sexpr ++ ")"
  | binary operator left right =>
      "(" ++ operator.spelling ++ " " ++ left.sexpr ++ " " ++ right.sexpr ++ ")"
  | call function arguments => "(call " ++ function ++ sexprAll arguments ++ ")"
  | index array subscript => "(index " ++ array ++ " " ++ subscript.sexpr ++ ")"

def sexprAll : List Expr → String
  | [] => ""
  | first :: rest => " " ++ first.sexpr ++ sexprAll rest

end

end Expr

end JassExpr
