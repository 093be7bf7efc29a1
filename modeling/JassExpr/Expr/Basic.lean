import JassExpr.Expr.Literal
import JassExpr.Expr.Operator

/-!
# Expressions

An expression is a tree without places and without parentheses: only what the text means. Two
expressions are the same when they were written alike up to blanks, comments and grouping.
-/

namespace JassExpr

inductive Expr where
  | literal (value : Literal)
  | name (name : String)
  | unary (operator : UnaryOp) (operand : Expr)
  | binary (operator : BinaryOp) (left right : Expr)
  /-- A function applied to its arguments. -/
  | call (name : String) (arguments : List Expr)
  /-- An element of an array variable. -/
  | index (name : String) (subscript : Expr)

namespace Expr

mutual

/-- What holds of an expression when it holds of those it is made of holds of them all. -/
theorem induction {motive : Expr → Prop}
    (literal : ∀ value, motive (.literal value))
    (name : ∀ name, motive (.name name))
    (unary : ∀ operator operand, motive operand → motive (.unary operator operand))
    (binary : ∀ operator left right, motive left → motive right →
      motive (.binary operator left right))
    (call : ∀ name arguments, (∀ argument ∈ arguments, motive argument) →
      motive (.call name arguments))
    (index : ∀ name subscript, motive subscript → motive (.index name subscript)) :
    ∀ expr, motive expr
  | .literal value => literal value
  | .name identifier => name identifier
  | .unary operator operand =>
      unary operator operand (induction literal name unary binary call index operand)
  | .binary operator left right =>
      binary operator left right
        (induction literal name unary binary call index left)
        (induction literal name unary binary call index right)
  | .call function arguments =>
      call function arguments
        (inductionAll literal name unary binary call index arguments)
  | .index array subscript =>
      index array subscript (induction literal name unary binary call index subscript)

/-- The same for all the expressions of a list. -/
theorem inductionAll {motive : Expr → Prop}
    (literal : ∀ value, motive (.literal value))
    (name : ∀ name, motive (.name name))
    (unary : ∀ operator operand, motive operand → motive (.unary operator operand))
    (binary : ∀ operator left right, motive left → motive right →
      motive (.binary operator left right))
    (call : ∀ name arguments, (∀ argument ∈ arguments, motive argument) →
      motive (.call name arguments))
    (index : ∀ name subscript, motive subscript → motive (.index name subscript)) :
    ∀ exprs : List Expr, ∀ expr ∈ exprs, motive expr
  | [], _, member => absurd member (List.not_mem_nil)
  | first :: rest, expr, member =>
      match List.mem_cons.mp member with
      | .inl same =>
          same ▸ induction literal name unary binary call index first
      | .inr later =>
          inductionAll literal name unary binary call index rest expr later

end

attribute [induction_eliminator] induction

/-- How tightly the outermost operator of an expression binds. Everything that is not made by a
binary operator binds as tightly as can be. -/
def precedence : Expr → Nat
  | binary operator _ _ => operator.precedence
  | _ => BinaryOp.operandPrecedence

mutual

def size : Expr → Nat
  | literal _ => 1
  | name _ => 1
  | unary _ operand => operand.size + 1
  | binary _ left right => left.size + right.size + 1
  | call _ arguments => sizeAll arguments + 1
  | index _ subscript => subscript.size + 1

def sizeAll : List Expr → Nat
  | [] => 0
  | first :: rest => first.size + sizeAll rest

end

end Expr

end JassExpr
