import JassExpr.Phrase.NodeTable

/-!
# Numbering depends on the tree alone

Apart from the places of its nodes, the table of a phrase can be read off the expression that the
phrase writes, and that expression can be told from the table: read from its end, a table has each
node before the operands that the node asks for. So two phrases write the same expression just when
their tables differ in places only.
-/

namespace JassExpr

/-- What a node is and whose operand it is, without its place. -/
def Node.shape (node : Node) : NodeKind × Option Nat :=
  (node.kind, node.parent)

/-- The nodes of a table by number, without their places. -/
def NodeTable.shape (table : NodeTable) : List (NodeKind × Option Nat) :=
  table.nodes.toList.map Node.shape

namespace Expr

/-- The number of the root of an expression whose nodes are numbered from `base` on. -/
def rootFrom (base : Nat) (expr : Expr) : Nat :=
  base + expr.size - 1

def rootsFrom (base : Nat) : List Expr → List Nat
  | [] => []
  | first :: rest => first.rootFrom base :: rootsFrom (base + first.size) rest

mutual

/-- The nodes of an expression without places, numbered from `base` on, when its root is an
operand of `parent`. -/
def shapeFrom (base : Nat) (parent : Option Nat) : Expr → List (NodeKind × Option Nat)
  | literal value => [(.literal value, parent)]
  | name identifier => [(.name identifier, parent)]
  | unary operator operand =>
      operand.shapeFrom base (some (base + operand.size)) ++
        [(.unary operator (operand.rootFrom base), parent)]
  | binary operator left right =>
      left.shapeFrom base (some (base + left.size + right.size)) ++
        right.shapeFrom (base + left.size) (some (base + left.size + right.size)) ++
          [(.binary operator (left.rootFrom base) (right.rootFrom (base + left.size)), parent)]
  | call function arguments =>
      shapeOfEach base (some (base + sizeAll arguments)) arguments ++
        [(.call function (rootsFrom base arguments), parent)]
  | index array subscript =>
      subscript.shapeFrom base (some (base + subscript.size)) ++
        [(.index array (subscript.rootFrom base), parent)]

def shapeOfEach (base : Nat) (parent : Option Nat) : List Expr → List (NodeKind × Option Nat)
  | [] => []
  | first :: rest =>
      first.shapeFrom base parent ++ shapeOfEach (base + first.size) parent rest

end

/-- The operands of the root of an expression from left to right. -/
def operands : Expr → List Expr
  | literal _ => []
  | name _ => []
  | unary _ operand => [operand]
  | binary _ left right => [left, right]
  | call _ arguments => arguments
  | index _ subscript => [subscript]

/-- What the root of an expression is when the nodes of its operands are numbered from `base`
on. -/
def rootKind (base : Nat) : Expr → NodeKind
  | literal value => .literal value
  | name identifier => .name identifier
  | unary operator operand => .unary operator (operand.rootFrom base)
  | binary operator left right =>
      .binary operator (left.rootFrom base) (right.rootFrom (base + left.size))
  | call function arguments => .call function (rootsFrom base arguments)
  | index array subscript => .index array (subscript.rootFrom base)

/-- What holds of an expression when it holds of its operands holds of every expression. -/
theorem induction_operands {motive : Expr → Prop}
    (step : ∀ expr, (∀ operand ∈ expr.operands, motive operand) → motive expr)
    (expr : Expr) : motive expr := by
  induction expr with
  | literal value => exact step _ (List.forall_mem_nil _)
  | name name => exact step _ (List.forall_mem_nil _)
  | unary operator operand ih => exact step _ (List.forall_mem_singleton.mpr ih)
  | binary operator left right ihLeft ihRight =>
      exact step _ (List.forall_mem_cons.mpr ⟨ihLeft, List.forall_mem_singleton.mpr ihRight⟩)
  | call name arguments ih => exact step _ ih
  | index name subscript ih => exact step _ (List.forall_mem_singleton.mpr ih)

/-- The operands of an expression come before its root. -/
theorem shapeFrom_eq (base : Nat) (parent : Option Nat) (expr : Expr) :
    expr.shapeFrom base parent =
      shapeOfEach base (some (base + sizeAll expr.operands)) expr.operands ++
        [(expr.rootKind base, parent)] := by
  cases expr <;> simp [shapeFrom, shapeOfEach, operands, rootKind, sizeAll, Nat.add_assoc]

theorem length_rootsFrom (base : Nat) (exprs : List Expr) :
    (rootsFrom base exprs).length = exprs.length := by
  induction exprs generalizing base with
  | nil => rfl
  | cons first rest ih => simp [rootsFrom, ih]

/-- Nodes of the same kind have as many operands. -/
theorem length_operands_eq {first second : Expr} {base base' : Nat}
    (same : first.rootKind base = second.rootKind base') :
    first.operands.length = second.operands.length := by
  cases first <;> cases second <;> simp_all only [rootKind, reduceCtorEq, NodeKind.call.injEq]
  case call.call =>
    rw [operands, operands, ← length_rootsFrom base, same.2, length_rootsFrom]
  all_goals rfl

/-- The kind of its root and its operands are all that there is to an expression. -/
theorem eq_of_operands_eq {first second : Expr} {base base' : Nat}
    (sameKind : first.rootKind base = second.rootKind base')
    (same : first.operands = second.operands) : first = second := by
  cases first <;> cases second <;> simp_all [rootKind, operands]

/-- No other expression has its nodes at the end of a list that has those of this one there. -/
def Legible (expr : Expr) : Prop :=
  ∀ {other : Expr} {before before' : List (NodeKind × Option Nat)} {base base' : Nat}
    {parent parent' : Option Nat},
      before ++ expr.shapeFrom base parent = before' ++ other.shapeFrom base' parent' →
        before = before' ∧ expr = other

theorem eq_of_append_shapeOfEach_eq {first second : List Expr}
    {before before' : List (NodeKind × Option Nat)} {base base' : Nat}
    {parent parent' : Option Nat} (each : ∀ expr ∈ first, expr.Legible)
    (count : first.length = second.length)
    (same : before ++ shapeOfEach base parent first =
      before' ++ shapeOfEach base' parent' second) :
    before = before' ∧ first = second := by
  induction first generalizing second before before' base base' with
  | nil =>
      obtain rfl : second = [] := List.length_eq_zero_iff.mp count.symm
      simpa [shapeOfEach] using same
  | cons expr first ih =>
      obtain ⟨other, second, rfl⟩ := List.exists_cons_of_length_eq_add_one count.symm
      rw [List.forall_mem_cons] at each
      rw [shapeOfEach, shapeOfEach, ← List.append_assoc, ← List.append_assoc] at same
      obtain ⟨sameFirst, rfl⟩ := ih each.2 (Nat.succ.inj count) same
      obtain ⟨sameBefore, rfl⟩ := each.1 sameFirst
      exact ⟨sameBefore, rfl⟩

/-- The last node is the root, which tells how many operands there are in front of it. -/
theorem legible (expr : Expr) : expr.Legible := by
  induction expr using induction_operands with
  | step expr ih =>
      intro other before before' base base' parent parent' same
      rw [shapeFrom_eq, shapeFrom_eq, ← List.append_assoc, ← List.append_assoc] at same
      obtain ⟨sameOperands, sameRoot⟩ := List.append_inj' same rfl
      obtain ⟨sameKind, -⟩ := Prod.mk.inj (List.singleton_inj.mp sameRoot)
      obtain ⟨sameBefore, sameEach⟩ :=
        eq_of_append_shapeOfEach_eq ih (length_operands_eq sameKind) sameOperands
      exact ⟨sameBefore, eq_of_operands_eq sameKind sameEach⟩

end Expr

namespace Phrase

theorem rootFrom_expr {τ : Type} (phrase : Phrase τ) (base : Nat) :
    phrase.expr.rootFrom base = phrase.rootFrom base := by
  rw [Expr.rootFrom, rootFrom, size_expr]

theorem rootsFrom_exprOfEach {τ : Type} (phrases : List (Phrase τ)) (base : Nat) :
    Expr.rootsFrom base (exprOfEach phrases) = rootsFrom base phrases := by
  induction phrases generalizing base with
  | nil => rfl
  | cons first rest ih => simp [exprOfEach, Expr.rootsFrom, rootsFrom, rootFrom_expr, size_expr, ih]

theorem sizeAll_exprOfEach {τ : Type} (phrases : List (Phrase τ)) :
    Expr.sizeAll (exprOfEach phrases) = sizeOfAll phrases := by
  induction phrases with
  | nil => rfl
  | cons first rest ih => simp [exprOfEach, Expr.sizeAll, sizeOfAll, size_expr, ih]

theorem shape_nodesOfEach {phrases : List (Phrase Token)}
    (each : ∀ phrase ∈ phrases, ∀ base parent,
      (phrase.nodesFrom base parent).map Node.shape = phrase.expr.shapeFrom base parent)
    (base : Nat) (parent : Option Nat) :
    (nodesOfEach base parent phrases).map Node.shape =
      Expr.shapeOfEach base parent (exprOfEach phrases) := by
  induction phrases generalizing base with
  | nil => rfl
  | cons first rest ih =>
      obtain ⟨same, sameRest⟩ := List.forall_mem_cons.mp each
      simp [nodesOfEach, exprOfEach, Expr.shapeOfEach, same, ih sameRest, size_expr]

/-- The nodes of a phrase without their places are those of its expression. -/
theorem shape_nodesFrom (phrase : Phrase Token) (base : Nat) (parent : Option Nat) :
    (phrase.nodesFrom base parent).map Node.shape = phrase.expr.shapeFrom base parent := by
  induction phrase generalizing base parent with
  | literal token value => rfl
  | name token name => rfl
  | group opening inner closing ih => exact ih base parent
  | unary operator token operand ih =>
      simp [nodesFrom, expr, Expr.shapeFrom, ih, size_expr, rootFrom_expr, Node.shape]
  | binary operator left token right ihLeft ihRight =>
      simp [nodesFrom, expr, Expr.shapeFrom, ihLeft, ihRight, size_expr, rootFrom_expr, Node.shape]
  | call callee name opening arguments commas closing ih =>
      simp [nodesFrom, expr, Expr.shapeFrom, shape_nodesOfEach ih, sizeAll_exprOfEach,
        rootsFrom_exprOfEach, Node.shape]
  | index array name opening subscript closing ih =>
      simp [nodesFrom, expr, Expr.shapeFrom, ih, size_expr, rootFrom_expr, Node.shape]

theorem shape_table (phrase : Phrase Token) :
    phrase.table.shape = phrase.expr.shapeFrom 0 none :=
  phrase.shape_nodesFrom 0 none

/-- Tables that differ in places only are those of phrases that write the same expression. -/
theorem shape_table_eq_iff {first second : Phrase Token} :
    first.table.shape = second.table.shape ↔ first.expr = second.expr := by
  rw [shape_table, shape_table]
  constructor
  · intro same
    exact (first.expr.legible (congrArg ([] ++ ·) same)).2
  · intro same
    rw [same]

end Phrase

end JassExpr
