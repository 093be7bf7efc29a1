import JassExpr.Proofs.Phrase.Numbering
import JassExpr.Proofs.Phrase.Parts

/-!
# Subtrees

The numbers of a table are relative: the nodes of a phrase whose numbers begin elsewhere are the
same, with every number raised. A table of a part is therefore what the table of the whole has at
some node and below it, and each node of a table has such a part.
-/

namespace JassExpr

/-- A node with the numbers of its operands raised. -/
def NodeKind.raise (base : Nat) : NodeKind → NodeKind
  | literal value => .literal value
  | name identifier => .name identifier
  | unary operator operand => .unary operator (base + operand)
  | binary operator left right => .binary operator (base + left) (base + right)
  | call function arguments => .call function (arguments.map (base + ·))
  | index array subscript => .index array (base + subscript)

/-- A node with every number that it names raised. -/
def Node.raise (base : Nat) (node : Node) : Node :=
  ⟨node.kind.raise base, node.span, node.parent.map (base + ·)⟩

/-- A table is what another one has at a node and below it: these are the nodes whose numbers begin
at some base, and they are the same but for their numbers and for what the topmost is an operand
of. -/
structure NodeTable.IsSubtree (part whole : NodeTable) (base : Nat) : Prop where
  reaches_iff : ∀ number, whole.Reaches (base + part.root) number ↔
    base ≤ number ∧ number ≤ base + part.root
  below : ∀ number < part.root,
    whole.node? (base + number) = (part.node? number).map (Node.raise base)
  topmost : whole.node? (base + part.root) = (part.node? part.root).map fun node =>
    { node.raise base with parent := whole.parent? (base + part.root) }

namespace Phrase

theorem rootFrom_add {τ : Type} (phrase : Phrase τ) (base more : Nat) :
    phrase.rootFrom (base + more) = base + phrase.rootFrom more := by
  have positive := phrase.size_pos
  rw [rootFrom, rootFrom]
  omega

theorem rootsFrom_add {τ : Type} (phrases : List (Phrase τ)) (base more : Nat) :
    rootsFrom (base + more) phrases = (rootsFrom more phrases).map (base + ·) := by
  induction phrases generalizing more with
  | nil => rfl
  | cons first rest ih =>
      rw [rootsFrom, rootsFrom, List.map_cons, rootFrom_add, Nat.add_assoc, ih]

theorem rootKind_add {τ : Type} (phrase : Phrase τ) (base more : Nat) :
    phrase.rootKind (base + more) = (phrase.rootKind more).raise base := by
  induction phrase with
  | group opening inner closing ih => exact ih
  | _ => simp [rootKind, NodeKind.raise, rootFrom_add, rootsFrom_add, Nat.add_assoc]

theorem nodesOfEach_add {phrases : List (Phrase Token)} {base : Nat}
    (each : ∀ phrase ∈ phrases, ∀ more parent, phrase.nodesFrom (base + more)
      (Option.map (base + ·) parent) = (phrase.nodesFrom more parent).map (Node.raise base))
    (more : Nat) (parent : Option Nat) :
    nodesOfEach (base + more) (parent.map (base + ·)) phrases =
      (nodesOfEach more parent phrases).map (Node.raise base) := by
  induction phrases generalizing more with
  | nil => rfl
  | cons first rest ih =>
      obtain ⟨here, there⟩ := List.forall_mem_cons.mp each
      rw [nodesOfEach, nodesOfEach, List.map_append, here, Nat.add_assoc, ih there]

/-- Numbering the nodes of a phrase from further on raises every number. -/
theorem nodesFrom_add (phrase : Phrase Token) (base more : Nat) (parent : Option Nat) :
    phrase.nodesFrom (base + more) (parent.map (base + ·)) =
      (phrase.nodesFrom more parent).map (Node.raise base) := by
  induction phrase using induction_parts generalizing more parent with
  | group opening inner closing ih => exact ih more parent
  | other phrase notGroup ih =>
      have operands := nodesOfEach_add ih more (some (more + sizeOfAll phrase.parts))
      rw [Option.map_some, ← Nat.add_assoc] at operands
      rw [nodesFrom_eq_of_not_isGroup notGroup, nodesFrom_eq_of_not_isGroup notGroup, operands,
        rootKind_add, List.map_append]
      rfl

/-- The nodes of a phrase are those of its table with the numbers raised, except for what the root
is an operand of. -/
theorem exists_nodesFrom_eq_raise (phrase : Phrase Token) (base : Nat) :
    ∃ (below : List Node) (root : Node), below.length + 1 = phrase.size ∧
      phrase.table.nodes.toList.map (Node.raise base) = below ++ [root] ∧
        ∀ parent, phrase.nodesFrom base parent = below ++ [{ root with parent := parent }] := by
  obtain ⟨below, kind, span, same⟩ := phrase.exists_nodesFrom_eq base
  refine ⟨below, ⟨kind, span, none⟩, ?_, ?_, same⟩
  · rw [← phrase.length_nodesFrom base none, same, List.length_append]
    rfl
  · rw [← same, table, ← nodesFrom_add, Nat.add_zero, Option.map_none]

end Phrase

namespace NodeTable

variable {table : NodeTable} {phrase : Phrase Token} {base : Nat}

theorem Holds.node? (holds : table.Holds base phrase) :
    ∃ parent, ∀ number < phrase.size,
      table.node? (base + number) = (phrase.nodesFrom base parent)[number]? := by
  obtain ⟨before, parent, after, rfl, nodes⟩ := holds
  refine ⟨parent, fun number inside => ?_⟩
  have length := phrase.length_nodesFrom before.length parent
  rw [NodeTable.node?, ← Array.getElem?_toList, nodes,
    List.getElem?_append_right (Nat.le_add_right _ _), Nat.add_sub_cancel_left,
    List.getElem?_append_left (by omega)]

/-- Where the nodes of a phrase stand in a table, the table of the phrase is a subtree. -/
theorem Holds.isSubtree (holds : table.Holds base phrase) :
    phrase.table.IsSubtree table base := by
  obtain ⟨parent, found⟩ := holds.node?
  obtain ⟨below, root, length, raised, same⟩ := phrase.exists_nodesFrom_eq_raise base
  have isRoot : phrase.table.root = below.length := by
    rw [NodeTable.root, phrase.size_table, ← length, Nat.add_sub_cancel]
  have node?_map : ∀ number, (phrase.table.node? number).map (Node.raise base) =
      (below ++ [root])[number]? := by
    intro number
    rw [NodeTable.node?, ← Array.getElem?_toList, ← List.getElem?_map, raised]
  -- The root is looked up apart, because it alone depends on where the phrase stands.
  refine ⟨fun number => ?_, fun number inside => ?_, ?_⟩
  · obtain ⟨before, parent, after, rfl, nodes⟩ := holds
    have tree := phrase.isTree table before after parent nodes
    have reached := tree.reaches_iff number
    have rootFrom : phrase.rootFrom before.length = before.length + below.length := by
      rw [Phrase.rootFrom]
      omega
    simp only [List.mem_singleton, exists_eq_left, rootFrom] at reached
    rw [isRoot, reached]
    omega
  · rw [isRoot] at inside
    rw [found number (by omega), same, node?_map, List.getElem?_append_left inside,
      List.getElem?_append_left inside]
  · have here : table.node? (base + phrase.table.root) = some { root with parent := parent } := by
      rw [isRoot, found _ (by omega), same, List.getElem?_concat_length]
    have there : (phrase.table.node? phrase.table.root).map (Node.raise base) = some root := by
      rw [node?_map, isRoot, List.getElem?_concat_length]
    obtain ⟨node, isNode, raisedNode⟩ := Option.map_eq_some_iff.mp there
    rw [NodeTable.parent?, here, isNode, Option.map_some, raisedNode]
    rfl

/-- The root of a phrase that is no group stands behind the nodes of the parts. -/
theorem Holds.node?_root (holds : table.Holds base phrase) (notGroup : phrase.isGroup = false) :
    ∃ parent, table.node? (phrase.rootFrom base) =
      some ⟨phrase.rootKind base, phrase.span, parent⟩ := by
  have positive := phrase.size_pos
  obtain ⟨parent, found⟩ := holds.node?
  have size := Phrase.size_eq_of_not_isGroup notGroup
  have root : phrase.rootFrom base = base + Phrase.sizeOfAll phrase.parts := by
    rw [Phrase.rootFrom]
    omega
  have length := Phrase.length_nodesOfEach phrase.parts base
    (some (base + Phrase.sizeOfAll phrase.parts))
  refine ⟨parent, ?_⟩
  rw [root, found _ (by omega), Phrase.nodesFrom_eq_of_not_isGroup notGroup,
    List.getElem?_append_right (Nat.le_of_eq length), length, Nat.sub_self]
  rfl

/-- The root of a phrase that is no group has the span of the phrase. -/
theorem Holds.span_root (holds : table.Holds base phrase) (notGroup : phrase.isGroup = false)
    {node : Node} (isRoot : table.node? (phrase.rootFrom base) = some node) :
    node.span = phrase.span := by
  obtain ⟨parent, found⟩ := holds.node?_root notGroup
  rw [found] at isRoot
  cases isRoot
  rfl

/-- Every node of the table of a phrase is the root of a part of the phrase, which has its span and
the subtree below it. -/
theorem exists_isPart_of_node? {number : Nat} {node : Node}
    (found : phrase.table.node? number = some node) :
    ∃ (part : Phrase Token) (base : Nat), part.IsPart phrase ∧ part.span = node.span ∧
      base + part.table.root = number ∧ part.table.IsSubtree phrase.table base := by
  have inside : number < phrase.size := by
    rw [← phrase.size_table]
    exact (Array.getElem?_eq_some_iff.mp found).1
  obtain ⟨part, base, isPart, notGroup, holds, isRoot⟩ :=
    (holds_table phrase).exists_isPart (Nat.zero_le number) (by omega)
  have positive := part.size_pos
  refine ⟨part, base, isPart, (holds.span_root notGroup (isRoot ▸ found)).symm, ?_, holds.isSubtree⟩
  rw [NodeTable.root, part.size_table, ← isRoot, Phrase.rootFrom]
  omega

end NodeTable

end JassExpr
