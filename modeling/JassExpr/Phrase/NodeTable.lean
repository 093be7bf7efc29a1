import JassExpr.Phrase.Basic

/-!
# Numbered nodes

The nodes of a phrase are numbered so that operands come before their operator, from left to
right. The table of the nodes by number has the links in both directions: each node names its
operands and the node whose operand it is. Grouping parentheses make no node.
-/

namespace JassExpr

/-- What a node is, with the numbers of its operands. -/
inductive NodeKind where
  | literal (value : Literal)
  | name (name : String)
  | unary (operator : UnaryOp) (operand : Nat)
  | binary (operator : BinaryOp) (left right : Nat)
  | call (name : String) (arguments : List Nat)
  | index (name : String) (subscript : Nat)
deriving DecidableEq

/-- The operands of a node from left to right. -/
def NodeKind.children : NodeKind → List Nat
  | literal _ => []
  | name _ => []
  | unary _ operand => [operand]
  | binary _ left right => [left, right]
  | call _ arguments => arguments
  | index _ subscript => [subscript]

structure Node where
  kind : NodeKind
  span : Span
  /-- The node of which this one is an operand. -/
  parent : Option Nat
deriving DecidableEq

/-- The nodes of one expression by number, of which the last is the root. -/
structure NodeTable where
  nodes : Array Node
deriving DecidableEq

namespace NodeTable

def size (table : NodeTable) : Nat :=
  table.nodes.size

def isEmpty (table : NodeTable) : Bool :=
  table.nodes.isEmpty

def root (table : NodeTable) : Nat :=
  table.size - 1

/-- The node of a number, if the table has it. -/
def node? (table : NodeTable) (number : Nat) : Option Node :=
  table.nodes[number]?

/-- The operands of a node from left to right. -/
def children (table : NodeTable) (number : Nat) : List Nat :=
  match table.node? number with
  | some node => node.kind.children
  | none => []

/-- The node of which a node is an operand. -/
def parent? (table : NodeTable) (number : Nat) : Option Nat :=
  (table.node? number).bind Node.parent

/-- Visits the nodes that wait to be visited, each before its operands, in at most the given
number of steps. -/
def visit (table : NodeTable) : Nat → List Nat → List Nat
  | 0, _ => []
  | _ + 1, [] => []
  | steps + 1, number :: waiting =>
      number :: table.visit steps (table.children number ++ waiting)

/-- All nodes from the root on, each before its operands. -/
def descendants (table : NodeTable) : List Nat :=
  table.visit table.size [table.root]

end NodeTable

namespace Phrase

variable {τ : Type}

mutual

def size : Phrase τ → Nat
  | literal _ _ => 1
  | name _ _ => 1
  | group _ inner _ => inner.size
  | unary _ _ operand => operand.size + 1
  | binary _ left _ right => left.size + right.size + 1
  | call _ _ _ arguments _ _ => sizeOfAll arguments + 1
  | index _ _ _ subscript _ => subscript.size + 1

def sizeOfAll : List (Phrase τ) → Nat
  | [] => 0
  | first :: rest => first.size + sizeOfAll rest

end

/-- The number of the root of a phrase whose nodes are numbered from `base` on. -/
def rootFrom (base : Nat) (phrase : Phrase τ) : Nat :=
  base + phrase.size - 1

/-- The roots of some phrases whose nodes are numbered one after another from `base` on. -/
def rootsFrom (base : Nat) : List (Phrase τ) → List Nat
  | [] => []
  | first :: rest => first.rootFrom base :: rootsFrom (base + first.size) rest

mutual

/-- The nodes of a phrase, numbered from `base` on, when its root is an operand of `parent`. -/
def nodesFrom (base : Nat) (parent : Option Nat) : Phrase Token → List Node
  | literal token value => [⟨.literal value, token.span, parent⟩]
  | name token identifier => [⟨.name identifier, token.span, parent⟩]
  | group _ inner _ => inner.nodesFrom base parent
  | unary operator token operand =>
      operand.nodesFrom base (some (base + operand.size)) ++
        [⟨.unary operator (operand.rootFrom base),
          (unary operator token operand).span, parent⟩]
  | binary operator left token right =>
      left.nodesFrom base (some (base + left.size + right.size)) ++
        right.nodesFrom (base + left.size) (some (base + left.size + right.size)) ++
          [⟨.binary operator (left.rootFrom base) (right.rootFrom (base + left.size)),
            (binary operator left token right).span, parent⟩]
  | call callee function opening arguments commas closing =>
      nodesOfEach base (some (base + sizeOfAll arguments)) arguments ++
        [⟨.call function (rootsFrom base arguments),
          (call callee function opening arguments commas closing).span, parent⟩]
  | index token array opening subscript closing =>
      subscript.nodesFrom base (some (base + subscript.size)) ++
        [⟨.index array (subscript.rootFrom base),
          (index token array opening subscript closing).span, parent⟩]

/-- The nodes of some phrases, numbered one after another from `base` on. -/
def nodesOfEach (base : Nat) (parent : Option Nat) : List (Phrase Token) → List Node
  | [] => []
  | first :: rest =>
      first.nodesFrom base parent ++ nodesOfEach (base + first.size) parent rest

end

def table (phrase : Phrase Token) : NodeTable :=
  ⟨(phrase.nodesFrom 0 none).toArray⟩

theorem size_pos (phrase : Phrase τ) : 0 < phrase.size := by
  induction phrase with
  | group opening inner closing ih => simpa [size] using ih
  | _ => simp [size]

theorem length_nodesFrom (phrase : Phrase Token) (base : Nat) (parent : Option Nat) :
    (phrase.nodesFrom base parent).length = phrase.size := by
  induction phrase generalizing base parent with
  | literal token value => rfl
  | name token name => rfl
  | group opening inner closing ih => simp [nodesFrom, size, ih]
  | unary operator token operand ih => simp [nodesFrom, size, ih]
  | binary operator left token right ihLeft ihRight =>
      simp [nodesFrom, size, ihLeft, ihRight, Nat.add_assoc]
  | call callee name opening arguments commas closing ih =>
      have each : ∀ base parent,
          (nodesOfEach base parent arguments).length = sizeOfAll arguments := by
        induction arguments with
        | nil => intro _ _; rfl
        | cons first rest ihRest =>
            intro base parent
            simp [nodesOfEach, sizeOfAll, ih first (by simp),
              ihRest fun argument member => ih argument (List.mem_cons_of_mem _ member)]
      simp [nodesFrom, size, each]
  | index array name opening subscript closing ih => simp [nodesFrom, size, ih]

/-- A table has one node for each node of its phrase. -/
theorem size_table (phrase : Phrase Token) : phrase.table.size = phrase.size := by
  simp [table, NodeTable.size, length_nodesFrom]

/-- The nodes of a phrase are those of its expression. -/
theorem size_expr (phrase : Phrase τ) : phrase.expr.size = phrase.size := by
  induction phrase with
  | literal token value => rfl
  | name token name => rfl
  | group opening inner closing ih => simpa [expr, size] using ih
  | unary operator token operand ih => simp [expr, Expr.size, size, ih]
  | binary operator left token right ihLeft ihRight =>
      simp [expr, Expr.size, size, ihLeft, ihRight]
  | call callee name opening arguments commas closing ih =>
      have each : Expr.sizeAll (exprOfEach arguments) = sizeOfAll arguments := by
        induction arguments with
        | nil => rfl
        | cons first rest ihRest =>
            simp [exprOfEach, Expr.sizeAll, sizeOfAll, ih first (by simp),
              ihRest fun argument member => ih argument (List.mem_cons_of_mem _ member)]
      simp [expr, Expr.size, size, each]
  | index array name opening subscript closing ih => simp [expr, Expr.size, size, ih]

end Phrase

end JassExpr
