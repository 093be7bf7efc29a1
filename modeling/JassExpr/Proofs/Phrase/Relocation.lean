import JassExpr.Proofs.Phrase.Map
import JassExpr.Proofs.Phrase.Parts
import JassExpr.Proofs.Token.Excerpt

/-!
# Phrases at other places

A phrase takes its places from its first and its last token. When its tokens are moved so that none
passes another, the phrase and the nodes of its table move with them, and nothing else changes.
-/

namespace JassExpr

variable {move : Nat → Nat}

/-- A node at the place to which it is moved. -/
def Node.relocate (move : Nat → Nat) (node : Node) : Node :=
  { node with span := node.span.relocate move }

/-- A table with every node at the place to which it is moved. -/
def NodeTable.relocate (move : Nat → Nat) (table : NodeTable) : NodeTable :=
  ⟨table.nodes.map (Node.relocate move)⟩

theorem Span.relocate_cover (monotone : Monotone move) (first second : Span) :
    (first.cover second).relocate move = (first.relocate move).cover (second.relocate move) := by
  simp only [relocate, cover, monotone.map_min, monotone.map_max]

namespace Phrase

variable {τ σ : Type}

@[simp]
theorem last_map (function : τ → σ) (phrase : Phrase τ) :
    (phrase.map function).last = function phrase.last := by
  induction phrase with
  | unary operator token operand ih => exact ih
  | binary operator left token right ihLeft ihRight => exact ihRight
  | _ => rfl

@[simp]
theorem isGroup_map (function : τ → σ) (phrase : Phrase τ) :
    (phrase.map function).isGroup = phrase.isGroup := by
  cases phrase <;> rfl

@[simp]
theorem parts_map (function : τ → σ) (phrase : Phrase τ) :
    (phrase.map function).parts = phrase.parts.map (map function) := by
  cases phrase with
  | call callee name opening arguments commas closing => exact mapEach_eq_map function arguments
  | _ => rfl

@[simp]
theorem size_map (function : τ → σ) (phrase : Phrase τ) :
    (phrase.map function).size = phrase.size := by
  rw [← size_expr, ← size_expr, expr_map]

@[simp]
theorem sizeOfAll_map (function : τ → σ) (phrases : List (Phrase τ)) :
    sizeOfAll (phrases.map (map function)) = sizeOfAll phrases := by
  induction phrases with
  | nil => rfl
  | cons first rest ih => rw [List.map_cons, sizeOfAll, sizeOfAll, size_map, ih]

@[simp]
theorem rootFrom_map (function : τ → σ) (phrase : Phrase τ) (base : Nat) :
    (phrase.map function).rootFrom base = phrase.rootFrom base := by
  rw [rootFrom, rootFrom, size_map]

@[simp]
theorem rootsFrom_map (function : τ → σ) (phrases : List (Phrase τ)) (base : Nat) :
    rootsFrom base (phrases.map (map function)) = rootsFrom base phrases := by
  induction phrases generalizing base with
  | nil => rfl
  | cons first rest ih =>
      rw [List.map_cons, rootsFrom, rootsFrom, rootFrom_map, size_map, ih]

@[simp]
theorem rootKind_map (function : τ → σ) (phrase : Phrase τ) (base : Nat) :
    (phrase.map function).rootKind base = phrase.rootKind base := by
  induction phrase with
  | group opening inner closing ih => exact ih
  | _ => simp [map, mapEach_eq_map, rootKind]

theorem span_map_relocate (monotone : Monotone move) (phrase : Phrase Token) :
    (phrase.map (Token.relocate move)).span = phrase.span.relocate move := by
  rw [span, span, first_map, last_map, Span.relocate_cover monotone]
  rfl

theorem nodesOfEach_map_relocate {phrases : List (Phrase Token)}
    (each : ∀ phrase ∈ phrases, ∀ base parent,
      (phrase.map (Token.relocate move)).nodesFrom base parent =
        (phrase.nodesFrom base parent).map (Node.relocate move))
    (base : Nat) (parent : Option Nat) :
    nodesOfEach base parent (phrases.map (map (Token.relocate move))) =
      (nodesOfEach base parent phrases).map (Node.relocate move) := by
  induction phrases generalizing base with
  | nil => rfl
  | cons first rest ih =>
      obtain ⟨here, there⟩ := List.forall_mem_cons.mp each
      rw [List.map_cons, nodesOfEach, nodesOfEach, List.map_append, here, size_map, ih there]

/-- The nodes of a phrase move with its tokens. -/
theorem nodesFrom_map_relocate (monotone : Monotone move) (phrase : Phrase Token) (base : Nat)
    (parent : Option Nat) :
    (phrase.map (Token.relocate move)).nodesFrom base parent =
      (phrase.nodesFrom base parent).map (Node.relocate move) := by
  induction phrase using induction_parts generalizing base parent with
  | group opening inner closing ih => exact ih base parent
  | other phrase notGroup ih =>
      have notGroup' : (phrase.map (Token.relocate move)).isGroup = false := by
        rw [isGroup_map, notGroup]
      rw [nodesFrom_eq_of_not_isGroup notGroup, nodesFrom_eq_of_not_isGroup notGroup', parts_map,
        sizeOfAll_map, rootKind_map, span_map_relocate monotone, nodesOfEach_map_relocate ih,
        List.map_append]
      rfl

theorem table_map_relocate (monotone : Monotone move) (phrase : Phrase Token) :
    (phrase.map (Token.relocate move)).table = phrase.table.relocate move := by
  rw [table, nodesFrom_map_relocate monotone, NodeTable.relocate, table, List.map_toArray]

end Phrase

end JassExpr
