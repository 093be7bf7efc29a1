import Mathlib.Data.List.Nodup
import Mathlib.Logic.Relation
import JassExpr.Proofs.Phrase.Parts

/-!
# Tables are trees

The numbers of a table are those of one tree in the order in which operands come before their
operator. The nodes below a node have the numbers just before its own, without a gap, and the links
up and down say the same. Visiting a node before its operands comes past every node once.
-/

namespace JassExpr

namespace NodeTable

variable {table : NodeTable} {parent : Option Nat} {first stop : Nat} {roots : List Nat}

/-- The numbers from `first` up to `stop` are those of trees with some roots in order. Each tree
takes a block of numbers that ends with its root, the others are those of the trees below it, and
every root names the node that it is an operand of. -/
inductive Forest (table : NodeTable) : Option Nat → Nat → List Nat → Nat → Prop
  | nil {parent : Option Nat} {stop : Nat} : Forest table parent stop [] stop
  | cons {parent : Option Nat} {first root stop : Nat} {roots : List Nat}
      (linked : table.parent? root = parent)
      (below : Forest table (some root) first (table.children root) root)
      (others : Forest table parent (root + 1) roots stop) :
      Forest table parent first (root :: roots) stop

/-- One node is below another, or is that node itself. -/
def Reaches (table : NodeTable) : Nat → Nat → Prop :=
  Relation.ReflTransGen fun parent child => child ∈ table.children parent

/-- Visiting some nodes and what is below them in order, each node before its operands. -/
inductive Walk (table : NodeTable) : List Nat → List Nat → Prop
  | nil : Walk table [] []
  | cons {number : Nat} {waiting below after : List Nat}
      (operands : Walk table (table.children number) below) (others : Walk table waiting after) :
      Walk table (number :: waiting) (number :: (below ++ after))

theorem reaches_iff_eq_or {number other : Nat} :
    table.Reaches number other ↔
      number = other ∨ ∃ child, child ∈ table.children number ∧ table.Reaches child other :=
  Relation.ReflTransGen.cases_head_iff

/-- A table is one tree that is numbered in post-order. -/
structure PostOrdered (table : NodeTable) : Prop where
  nonempty : 0 < table.size
  /-- Operands come before their operator. -/
  lt_of_mem_children : ∀ number, ∀ child ∈ table.children number, child < number
  increasing : ∀ number, (table.children number).Pairwise (· < ·)
  /-- What is below a node, and the node, are a block of numbers that ends with its own. -/
  block : ∀ number < table.size, ∃ first, ∀ other,
    table.Reaches number other ↔ first ≤ other ∧ other ≤ number
  /-- The links up and down agree. -/
  parent?_eq_some_iff : ∀ number child,
    table.parent? child = some number ↔ child ∈ table.children number
  count_eq_one : ∀ number, ∀ child ∈ table.children number,
    (table.children number).count child = 1
  parent?_eq_none_iff : ∀ number < table.size,
    table.parent? number = none ↔ number = table.root
  /-- The walk over all nodes goes from the root to each node before its operands. -/
  walk : table.Walk [table.root] table.descendants
  /-- The walk comes past every node once. -/
  perm : table.descendants.Perm (List.range table.size)
  /-- The walk ends by itself: with more steps it would be the same. -/
  ends : ∀ steps, table.size ≤ steps → table.visit steps [table.root] = table.descendants

namespace Forest

theorem le (forest : Forest table parent first roots stop) : first ≤ stop := by
  induction forest with
  | nil => exact Nat.le.refl
  | cons linked below others ihBelow ihOthers => omega

theorem between (forest : Forest table parent first roots stop) :
    ∀ root ∈ roots, first ≤ root ∧ root < stop := by
  induction forest with
  | nil => simp
  | @cons parent first root stop roots linked below others ihBelow ihOthers =>
      have before := below.le
      have after := others.le
      refine List.forall_mem_cons.mpr ⟨⟨before, after⟩, fun other member => ?_⟩
      have inOthers := ihOthers other member
      omega

theorem increasing (forest : Forest table parent first roots stop) :
    roots.Pairwise (· < ·) := by
  induction forest with
  | nil => exact .nil
  | cons linked below others ihBelow ihOthers =>
      exact .cons (fun other member => (others.between other member).1) ihOthers

/-- Every number of a forest is the root of a tree. -/
theorem subtree (forest : Forest table parent first roots stop) :
    ∀ number, first ≤ number → number < stop →
      ∃ start, first ≤ start ∧ Forest table (some number) start (table.children number) number := by
  induction forest with
  | nil =>
      intro number least most
      omega
  | @cons parent first root stop roots linked below others ihBelow ihOthers =>
      intro number least most
      rcases Nat.lt_trichotomy number root with before | same | after
      · exact ihBelow number least before
      · subst same
        exact ⟨first, Nat.le.refl, below⟩
      · obtain ⟨start, from_, forest⟩ := ihOthers number after most
        have := below.le
        exact ⟨start, by omega, forest⟩

/-- A number of a forest is a root, or it is an operand and names the node it is one of. -/
theorem linked (forest : Forest table parent first roots stop) :
    ∀ number, first ≤ number → number < stop →
      (number ∈ roots ∧ table.parent? number = parent) ∨
        ∃ other, number ∈ table.children other ∧ table.parent? number = some other := by
  induction forest with
  | nil =>
      intro number least most
      omega
  | @cons parent first root stop roots linked below others ihBelow ihOthers =>
      intro number least most
      rcases Nat.lt_trichotomy number root with before | same | after
      · rcases ihBelow number least before with ⟨member, named⟩ | inner
        · exact .inr ⟨root, member, named⟩
        · exact .inr inner
      · subst same
        exact .inl ⟨List.mem_cons_self, linked⟩
      · rcases ihOthers number after most with ⟨member, named⟩ | inner
        · exact .inl ⟨List.mem_cons_of_mem _ member, named⟩
        · exact .inr inner

theorem parent?_of_mem (forest : Forest table parent first roots stop) :
    ∀ root ∈ roots, table.parent? root = parent := by
  induction forest with
  | nil => simp
  | cons linked below others ihBelow ihOthers => exact List.forall_mem_cons.mpr ⟨linked, ihOthers⟩

/-- What is below the roots of a forest is all its numbers. -/
theorem reaches_iff (forest : Forest table parent first roots stop) (number : Nat) :
    (∃ root, root ∈ roots ∧ table.Reaches root number) ↔ first ≤ number ∧ number < stop := by
  induction forest with
  | nil =>
      simp only [List.not_mem_nil, false_and, exists_false, false_iff]
      omega
  | @cons parent first root stop roots linked below others ihBelow ihOthers =>
      have before := below.le
      have after := others.le
      simp only [List.mem_cons, exists_eq_or_imp, ihOthers]
      rw [reaches_iff_eq_or, ihBelow]
      omega

/-- The trees of a forest are walked over one after another. -/
theorem exists_walk (forest : Forest table parent first roots stop) :
    ∃ order, table.Walk roots order ∧ order.Perm (List.range' first (stop - first)) := by
  induction forest with
  | nil => exact ⟨[], .nil, by simp⟩
  | @cons parent first root stop roots linked below others ihBelow ihOthers =>
      obtain ⟨inside, walkBelow, permBelow⟩ := ihBelow
      obtain ⟨outside, walkOthers, permOthers⟩ := ihOthers
      refine ⟨root :: (inside ++ outside), .cons walkBelow walkOthers, ?_⟩
      have before := below.le
      have after := others.le
      have numbers : List.range' first (root - first) ++
          root :: List.range' (root + 1) (stop - (root + 1)) =
            List.range' first (stop - first) := by
        have counted : stop - first = (root - first) + (stop - (root + 1) + 1) := by omega
        have continued : first + (root - first) = root := by omega
        rw [counted, ← List.range'_append_1, continued, List.range'_succ]
      rw [← numbers]
      exact ((permBelow.append permOthers).cons root).trans List.perm_middle.symm

end Forest

@[simp]
theorem visit_nil (steps : Nat) : table.visit steps [] = [] := by
  cases steps <;> rfl

/-- Visiting takes one step for each node. -/
theorem Walk.visit_eq {waiting order : List Nat} (walk : table.Walk waiting order) (steps : Nat)
    (later : List Nat) :
    table.visit (order.length + steps) (waiting ++ later) = order ++ table.visit steps later := by
  induction walk generalizing steps later with
  | nil => simp
  | @cons number waiting below after operands others ihOperands ihOthers =>
      have count : (number :: (below ++ after)).length + steps =
          below.length + (after.length + steps) + 1 := by
        simp only [List.length_cons, List.length_append]
        omega
      rw [count, List.cons_append, visit, ihOperands, ihOthers, List.cons_append, List.append_assoc]

theorem children_of_le {number : Nat} (outside : table.size ≤ number) :
    table.children number = [] := by
  have missing : table.node? number = none := Array.getElem?_eq_none outside
  rw [children, missing]

theorem parent?_of_le {number : Nat} (outside : table.size ≤ number) :
    table.parent? number = none := by
  have missing : table.node? number = none := Array.getElem?_eq_none outside
  rw [parent?, missing]
  rfl

namespace Forest

variable {middle root : Nat}

theorem append (tree : Forest table parent first [root] middle)
    (others : Forest table parent middle roots stop) :
    Forest table parent first (root :: roots) stop := by
  cases tree with
  | cons linked below none =>
      cases none
      exact .cons linked below others

/-- A node behind the trees of its operands makes one tree of them. -/
theorem node {kind : NodeKind} {span : Span}
    (found : table.node? root = some ⟨kind, span, parent⟩)
    (below : Forest table (some root) first kind.children root) :
    Forest table parent first [root] (root + 1) := by
  refine .cons ?_ ?_ .nil
  · rw [parent?, found]
    rfl
  · rw [children, found]
    exact below

/-! ## Whole tables -/

variable (forest : Forest table none 0 [table.root] table.size)

include forest

/-- The operands of every node are the roots of a forest that ends at the node. -/
theorem exists_operands {number child : Nat} (member : child ∈ table.children number) :
    ∃ start, Forest table (some number) start (table.children number) number := by
  have inside : number < table.size := by
    apply Nat.lt_of_not_le
    intro outside
    rw [children_of_le outside] at member
    cases member
  obtain ⟨start, -, operands⟩ := forest.subtree number (Nat.zero_le _) inside
  exact ⟨start, operands⟩

theorem children_increasing (number : Nat) : (table.children number).Pairwise (· < ·) := by
  cases operands : table.children number with
  | nil => exact .nil
  | cons child others =>
      obtain ⟨start, subforest⟩ := forest.exists_operands (operands ▸ List.mem_cons_self)
      rw [← operands]
      exact subforest.increasing

theorem parent?_eq_some_iff (number child : Nat) :
    table.parent? child = some number ↔ child ∈ table.children number := by
  constructor
  · intro named
    have inside : child < table.size := by
      apply Nat.lt_of_not_le
      intro outside
      rw [parent?_of_le outside] at named
      cases named
    rcases forest.linked child (Nat.zero_le _) inside with ⟨-, isRoot⟩ | ⟨other, member, same⟩
    · rw [isRoot] at named
      cases named
    · rw [same] at named
      cases named
      exact member
  · intro member
    obtain ⟨start, operands⟩ := forest.exists_operands member
    exact operands.parent?_of_mem child member

theorem parent?_eq_none_iff {number : Nat} (inside : number < table.size) :
    table.parent? number = none ↔ number = table.root := by
  constructor
  · intro isRoot
    rcases forest.linked number (Nat.zero_le _) inside with ⟨member, -⟩ | ⟨other, -, named⟩
    · exact List.mem_singleton.mp member
    · rw [isRoot] at named
      cases named
  · rintro rfl
    exact forest.parent?_of_mem _ (List.mem_singleton_self _)

/-- Visiting takes as many steps as there are nodes, and comes past all of them. -/
theorem visits : ∃ order, table.Walk [table.root] order ∧ order.Perm (List.range table.size) ∧
    ∀ steps, table.size ≤ steps → table.visit steps [table.root] = order := by
  obtain ⟨order, walk, perm⟩ := forest.exists_walk
  rw [Nat.sub_zero, ← List.range_eq_range'] at perm
  have length : order.length = table.size := by
    rw [perm.length_eq, List.length_range]
  refine ⟨order, walk, perm, fun steps enough => ?_⟩
  obtain ⟨more, rfl⟩ := Nat.exists_eq_add_of_le enough
  have visited := walk.visit_eq more []
  rwa [length, List.append_nil, visit_nil, List.append_nil] at visited

/-- A table that is a forest of one tree is numbered in post-order. -/
theorem postOrdered (nonempty : 0 < table.size) : table.PostOrdered := by
  obtain ⟨order, walk, perm, ends⟩ := forest.visits
  have found : table.descendants = order := ends table.size Nat.le.refl
  exact {
    nonempty := nonempty
    lt_of_mem_children := by
      intro number child member
      obtain ⟨start, operands⟩ := forest.exists_operands member
      exact (operands.between child member).2
    increasing := forest.children_increasing
    block := by
      intro number inside
      obtain ⟨start, -, operands⟩ := forest.subtree number (Nat.zero_le _) inside
      refine ⟨start, fun other => ?_⟩
      have before := operands.le
      rw [reaches_iff_eq_or, operands.reaches_iff]
      omega
    parent?_eq_some_iff := forest.parent?_eq_some_iff
    count_eq_one := by
      intro number child member
      exact List.count_eq_one_of_mem ((forest.children_increasing number).imp Nat.ne_of_lt) member
    parent?_eq_none_iff := fun number => forest.parent?_eq_none_iff
    walk := by rwa [found]
    perm := by rwa [found]
    ends := by rwa [found] }

end Forest

end NodeTable

namespace Phrase

open NodeTable (Forest)

variable {table : NodeTable}

/-- The nodes of a phrase are a tree wherever in a table they stand. -/
def IsTree (phrase : Phrase Token) : Prop :=
  ∀ (table : NodeTable) (before after : List Node) (parent : Option Nat),
    table.nodes.toList = before ++ (phrase.nodesFrom before.length parent ++ after) →
      table.Forest parent before.length [phrase.rootFrom before.length]
        (before.length + phrase.size)

theorem forest_nodesOfEach {phrases : List (Phrase Token)}
    (each : ∀ phrase ∈ phrases, phrase.IsTree) (before : List Node) {after : List Node}
    {parent : Option Nat}
    (nodes : table.nodes.toList =
      before ++ (nodesOfEach before.length parent phrases ++ after)) :
    table.Forest parent before.length (rootsFrom before.length phrases)
      (before.length + sizeOfAll phrases) := by
  induction phrases generalizing before with
  | nil => exact .nil
  | cons first rest ih =>
      obtain ⟨isTree, areTrees⟩ := List.forall_mem_cons.mp each
      rw [nodesOfEach, List.append_assoc] at nodes
      have tree := isTree table before _ parent nodes
      have passed : (before ++ first.nodesFrom before.length parent).length =
          before.length + first.size := by
        rw [List.length_append, first.length_nodesFrom]
      have others := ih areTrees (before ++ first.nodesFrom before.length parent)
        (by rw [passed, List.append_assoc, nodes])
      rw [passed, Nat.add_assoc] at others
      exact tree.append others

/-- The nodes of every phrase are a tree. -/
theorem isTree (phrase : Phrase Token) : phrase.IsTree := by
  induction phrase using induction_parts with
  | group opening inner closing ih => exact ih
  | other phrase notGroup ih =>
      intro table before after parent nodes
      rw [nodesFrom_eq_of_not_isGroup notGroup, List.append_assoc] at nodes
      have last : (before ++ nodesOfEach before.length
          (some (before.length + sizeOfAll phrase.parts)) phrase.parts).length =
            before.length + sizeOfAll phrase.parts := by
        rw [List.length_append, length_nodesOfEach]
      have found : table.node? (before.length + sizeOfAll phrase.parts) =
          some ⟨phrase.rootKind before.length, phrase.span, parent⟩ := by
        rw [NodeTable.node?, ← Array.getElem?_toList, nodes, ← List.append_assoc,
          List.getElem?_append_right (Nat.le_of_eq last), last, Nat.sub_self]
        rfl
      have size := size_eq_of_not_isGroup notGroup
      have root : phrase.rootFrom before.length = before.length + sizeOfAll phrase.parts := by
        rw [rootFrom, size]
        omega
      rw [root, size, ← Nat.add_assoc]
      apply Forest.node found
      rw [children_rootKind notGroup]
      exact forest_nodesOfEach ih before nodes

theorem forest_table (phrase : Phrase Token) :
    phrase.table.Forest none 0 [phrase.table.root] phrase.table.size := by
  have tree := phrase.isTree phrase.table [] [] none (by simp [table])
  rw [List.length_nil, Nat.zero_add, rootFrom, Nat.zero_add] at tree
  rw [NodeTable.root, size_table]
  exact tree

/-- Adding the nodes of a phrase one at a time as it is read builds the table of the phrase, and
the last of them is the root. The table is a tree that is numbered in post-order. -/
theorem table_postOrdered (phrase : Phrase Token) :
    phrase.addTo .empty = (phrase.table, phrase.table.size - 1) ∧ phrase.table.PostOrdered := by
  refine ⟨phrase.addTo_empty, phrase.forest_table.postOrdered ?_⟩
  rw [size_table]
  exact phrase.size_pos

end Phrase

end JassExpr
