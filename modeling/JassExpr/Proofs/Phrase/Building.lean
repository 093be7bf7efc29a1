import JassExpr.Phrase.NodeTable

/-!
# Tables that grow node by node

While an expression is read, its nodes are added to a table one at a time, each after its operands,
and adding a node makes it the parent of those. What has been added when the whole phrase is read is
the table of the phrase, in which every link was known from the start.
-/

namespace JassExpr

namespace NodeTable

def empty : NodeTable :=
  ⟨#[]⟩

/-- Makes a number the parent of a node. -/
def link (parent : Nat) (nodes : Array Node) (child : Nat) : Array Node :=
  nodes.modify child fun node => { node with parent := some parent }

/-- Adds a node, which becomes the parent of its operands. -/
def add (table : NodeTable) (kind : NodeKind) (span : Span) : NodeTable :=
  ⟨(kind.children.foldl (link table.size) table.nodes).push ⟨kind, span, none⟩⟩

end NodeTable

namespace Phrase

mutual

/-- Adds the nodes of a phrase to a table as they are read. The result is the grown table and the
number of the root of the phrase in it. -/
def addTo (table : NodeTable) : Phrase Token → NodeTable × Nat
  | literal token value => (table.add (.literal value) token.span, table.size)
  | name token identifier => (table.add (.name identifier) token.span, table.size)
  | group _ inner _ => inner.addTo table
  | unary operator token operand =>
      let (grown, root) := operand.addTo table
      (grown.add (.unary operator root) (unary operator token operand).span, grown.size)
  | binary operator left token right =>
      let (halfGrown, leftRoot) := left.addTo table
      let (grown, rightRoot) := right.addTo halfGrown
      (grown.add (.binary operator leftRoot rightRoot) (binary operator left token right).span,
        grown.size)
  | call callee function opening arguments commas closing =>
      let (grown, roots) := addEachTo table arguments
      (grown.add (.call function roots)
        (call callee function opening arguments commas closing).span, grown.size)
  | index token array opening subscript closing =>
      let (grown, root) := subscript.addTo table
      (grown.add (.index array root) (index token array opening subscript closing).span, grown.size)

def addEachTo (table : NodeTable) : List (Phrase Token) → NodeTable × List Nat
  | [] => (table, [])
  | first :: rest =>
      let (halfGrown, root) := first.addTo table
      let (grown, roots) := addEachTo halfGrown rest
      (grown, root :: roots)

end

/-- The last node of a phrase is its root, and the others do not depend on the parent of that. -/
theorem exists_nodesFrom_eq (phrase : Phrase Token) (base : Nat) :
    ∃ (below : List Node) (kind : NodeKind) (span : Span),
      ∀ parent, phrase.nodesFrom base parent = below ++ [⟨kind, span, parent⟩] := by
  induction phrase with
  | literal token value => exact ⟨[], _, _, fun _ => rfl⟩
  | name token name => exact ⟨[], _, _, fun _ => rfl⟩
  | group opening inner closing ih => exact ih
  | unary operator token operand ih => exact ⟨_, _, _, fun _ => rfl⟩
  | binary operator left token right ihLeft ihRight => exact ⟨_, _, _, fun _ => rfl⟩
  | call callee name opening arguments commas closing ih => exact ⟨_, _, _, fun _ => rfl⟩
  | index array name opening subscript closing ih => exact ⟨_, _, _, fun _ => rfl⟩

theorem modify_length_append {α : Type} (front back : List α) (middle : α) (change : α → α) :
    (front ++ middle :: back).modify front.length change = front ++ change middle :: back := by
  induction front with
  | nil => simp
  | cons first front ih => simp [ih]

/-- Linking the root of a phrase changes nothing but the parent that it names. -/
theorem link_nodesFrom (phrase : Phrase Token) (parent : Nat) (before after : List Node) :
    NodeTable.link parent (before ++ phrase.nodesFrom before.length none ++ after).toArray
        (phrase.rootFrom before.length) =
      (before ++ phrase.nodesFrom before.length (some parent) ++ after).toArray := by
  obtain ⟨below, kind, span, same⟩ := phrase.exists_nodesFrom_eq before.length
  have size : below.length + 1 = phrase.size := by
    rw [← phrase.length_nodesFrom before.length none, same, List.length_append]
    rfl
  have root : phrase.rootFrom before.length = (before ++ below).length := by
    rw [rootFrom, List.length_append]
    omega
  apply Array.ext'
  rw [NodeTable.link, Array.toList_modify, root, same, same]
  simpa using modify_length_append (before ++ below) after ⟨kind, span, none⟩ _

theorem link_nodesOfEach (phrases : List (Phrase Token)) (parent : Nat) (before : List Node) :
    (rootsFrom before.length phrases).foldl (NodeTable.link parent)
        (before ++ nodesOfEach before.length none phrases).toArray =
      (before ++ nodesOfEach before.length (some parent) phrases).toArray := by
  induction phrases generalizing before with
  | nil => rfl
  | cons first rest ih =>
      have grown : (before ++ first.nodesFrom before.length (some parent)).length =
          before.length + first.size := by
        rw [List.length_append, first.length_nodesFrom]
      have linkRest := ih (before ++ first.nodesFrom before.length (some parent))
      rw [grown] at linkRest
      rw [rootsFrom, List.foldl_cons, nodesOfEach, nodesOfEach, ← List.append_assoc,
        first.link_nodesFrom, linkRest, ← List.append_assoc]

theorem length_nodesOfEach (phrases : List (Phrase Token)) (base : Nat) (parent : Option Nat) :
    (nodesOfEach base parent phrases).length = sizeOfAll phrases := by
  induction phrases generalizing base with
  | nil => rfl
  | cons first rest ih =>
      rw [nodesOfEach, List.length_append, first.length_nodesFrom, ih, sizeOfAll]

theorem size_nodesOfEach (phrases : List (Phrase Token)) (before : List Node) :
    (NodeTable.mk (before ++ nodesOfEach before.length none phrases).toArray).size =
      before.length + sizeOfAll phrases := by
  simp [NodeTable.size, length_nodesOfEach]

/-- A node is added behind those of its operands and becomes their parent. -/
theorem add_nodesOfEach (before : List Node) (phrases : List (Phrase Token)) (kind : NodeKind)
    (span : Span) (operands : kind.children = rootsFrom before.length phrases) :
    (NodeTable.mk (before ++ nodesOfEach before.length none phrases).toArray).add kind span =
      ⟨(before ++ (nodesOfEach before.length (some (before.length + sizeOfAll phrases)) phrases ++
        [Node.mk kind span none])).toArray⟩ := by
  rw [NodeTable.add, size_nodesOfEach, operands, link_nodesOfEach]
  simp

theorem addEachTo_eq {phrases : List (Phrase Token)}
    (each : ∀ phrase ∈ phrases, ∀ before : List Node, phrase.addTo ⟨before.toArray⟩ =
      (⟨(before ++ phrase.nodesFrom before.length none).toArray⟩, phrase.rootFrom before.length))
    (before : List Node) :
    addEachTo ⟨before.toArray⟩ phrases =
      (⟨(before ++ nodesOfEach before.length none phrases).toArray⟩,
        rootsFrom before.length phrases) := by
  induction phrases generalizing before with
  | nil => simp [addEachTo, nodesOfEach, rootsFrom]
  | cons first rest ih =>
      obtain ⟨here, there⟩ := List.forall_mem_cons.mp each
      have grown : (before ++ first.nodesFrom before.length none).length =
          before.length + first.size := by
        rw [List.length_append, first.length_nodesFrom]
      simp only [addEachTo, here before, ih there, grown, nodesOfEach, rootsFrom,
        List.append_assoc]

/-- Adding a phrase to a table puts the nodes of the phrase behind those of the table. -/
theorem addTo_eq (phrase : Phrase Token) (before : List Node) :
    phrase.addTo ⟨before.toArray⟩ =
      (⟨(before ++ phrase.nodesFrom before.length none).toArray⟩,
        phrase.rootFrom before.length) := by
  induction phrase generalizing before with
  | literal token value =>
      have grown := add_nodesOfEach before [] (.literal value) token.span rfl
      simpa [addTo, nodesOfEach, nodesFrom, rootFrom, size, NodeTable.size] using grown
  | name token name =>
      have grown := add_nodesOfEach before [] (.name name) token.span rfl
      simpa [addTo, nodesOfEach, nodesFrom, rootFrom, size, NodeTable.size] using grown
  | group opening inner closing ih => exact ih before
  | unary operator token operand ih =>
      have grown := add_nodesOfEach before [operand]
        (.unary operator (operand.rootFrom before.length)) (unary operator token operand).span rfl
      have size := size_nodesOfEach [operand] before
      simp only [nodesOfEach, sizeOfAll, List.append_nil, Nat.add_zero] at grown size
      simp only [addTo, ih, grown, size]
      rfl
  | binary operator left token right ihLeft ihRight =>
      have grown := add_nodesOfEach before [left, right]
        (.binary operator (left.rootFrom before.length)
          (right.rootFrom (before.length + left.size))) (binary operator left token right).span rfl
      have size := size_nodesOfEach [left, right] before
      have half : (before ++ left.nodesFrom before.length none).length =
          before.length + left.size := by
        rw [List.length_append, left.length_nodesFrom]
      have root : (binary operator left token right).rootFrom before.length =
          before.length + left.size + right.size := by
        rw [rootFrom, Phrase.size]
        omega
      simp only [nodesOfEach, sizeOfAll, List.append_nil, Nat.add_zero, ← List.append_assoc,
        ← Nat.add_assoc] at grown size
      simp only [addTo, ihLeft, ihRight, half, grown, size, root, nodesFrom, ← List.append_assoc]
  | call callee name opening arguments commas closing ih =>
      have grown := add_nodesOfEach before arguments
        (.call name (rootsFrom before.length arguments))
        (call callee name opening arguments commas closing).span rfl
      simp only [addTo, addEachTo_eq ih, grown, size_nodesOfEach]
      rfl
  | index array name opening subscript closing ih =>
      have grown := add_nodesOfEach before [subscript]
        (.index name (subscript.rootFrom before.length))
        (index array name opening subscript closing).span rfl
      have size := size_nodesOfEach [subscript] before
      simp only [nodesOfEach, sizeOfAll, List.append_nil, Nat.add_zero] at grown size
      simp only [addTo, ih, grown, size]
      rfl

/-- Adding the nodes of a phrase one at a time makes its table, and the last of them is the
root. -/
theorem addTo_empty (phrase : Phrase Token) :
    phrase.addTo .empty = (phrase.table, phrase.table.root) := by
  have added := phrase.addTo_eq []
  rw [List.nil_append, List.length_nil, rootFrom, Nat.zero_add] at added
  rw [NodeTable.root, size_table]
  exact added

theorem size_addTo (phrase : Phrase Token) (table : NodeTable) :
    (phrase.addTo table).1.size = table.size + phrase.size := by
  obtain ⟨nodes⟩ := table
  have added := phrase.addTo_eq nodes.toList
  rw [Array.toArray_toList] at added
  simp [added, NodeTable.size, length_nodesFrom]

/-- The root of a phrase that has been added is in the table. -/
theorem root_addTo_lt (phrase : Phrase Token) (table : NodeTable) :
    (phrase.addTo table).2 < (phrase.addTo table).1.size := by
  rw [size_addTo]
  obtain ⟨nodes⟩ := table
  have added := phrase.addTo_eq nodes.toList
  rw [Array.toArray_toList] at added
  have positive := phrase.size_pos
  simp only [added, rootFrom, NodeTable.size, Array.length_toList]
  omega

theorem addEachTo_concat (table : NodeTable) (phrases : List (Phrase Token))
    (phrase : Phrase Token) :
    addEachTo table (phrases ++ [phrase]) =
      ((phrase.addTo (addEachTo table phrases).1).1,
        (addEachTo table phrases).2 ++ [(phrase.addTo (addEachTo table phrases).1).2]) := by
  induction phrases generalizing table with
  | nil => rfl
  | cons first rest ih => simp only [List.cons_append, addEachTo, ih]

theorem size_addEachTo (phrases : List (Phrase Token)) (table : NodeTable) :
    (addEachTo table phrases).1.size = table.size + sizeOfAll phrases := by
  induction phrases generalizing table with
  | nil => rfl
  | cons first rest ih =>
      simp only [addEachTo, sizeOfAll]
      rw [ih, size_addTo, Nat.add_assoc]

theorem roots_addEachTo_lt (phrases : List (Phrase Token)) (table : NodeTable) :
    ∀ root ∈ (addEachTo table phrases).2, root < (addEachTo table phrases).1.size := by
  induction phrases generalizing table with
  | nil => exact fun _ member => absurd member List.not_mem_nil
  | cons first rest ih =>
      refine List.forall_mem_cons.mpr ⟨?_, ih (first.addTo table).1⟩
      refine Nat.lt_of_lt_of_le (first.root_addTo_lt table) ?_
      simp only [addEachTo]
      rw [size_addEachTo]
      exact Nat.le_add_right _ _

end Phrase

end JassExpr
