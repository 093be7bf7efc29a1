import Mathlib.Data.List.Infix
import JassExpr.Proofs.Phrase.Building
import JassExpr.Proofs.Phrase.Grammatical

/-!
# The parts of a phrase

What a phrase is made of, directly or through other parts, are phrases again. A part is grammatical
by itself, is nested no deeper, and its tokens are successive tokens of the whole. Every node of a
table is the root of a part that is no group, and the nodes of the part stand in the table next to
one another and end with that node.
-/

namespace JassExpr

namespace Phrase

variable {τ : Type}

/-- The phrases of which a phrase is directly made. -/
def parts : Phrase τ → List (Phrase τ)
  | literal _ _ => []
  | name _ _ => []
  | group _ inner _ => [inner]
  | unary _ _ operand => [operand]
  | binary _ left _ right => [left, right]
  | call _ _ _ arguments _ _ => arguments
  | index _ _ _ subscript _ => [subscript]

def isGroup : Phrase τ → Bool
  | group _ _ _ => true
  | _ => false

/-- A phrase is another one or a part of it. -/
inductive IsPart : Phrase τ → Phrase τ → Prop
  | whole {phrase : Phrase τ} : IsPart phrase phrase
  | inside {inner part phrase : Phrase τ} (member : part ∈ phrase.parts)
      (within : IsPart inner part) : IsPart inner phrase

/-- What holds of a group when it holds of what is in it, and of any other phrase when it holds of
its parts, holds of every phrase. -/
theorem induction_parts {motive : Phrase τ → Prop}
    (group : ∀ opening inner closing, motive inner → motive (.group opening inner closing))
    (other : ∀ phrase, phrase.isGroup = false → (∀ part ∈ phrase.parts, motive part) →
      motive phrase)
    (phrase : Phrase τ) : motive phrase := by
  induction phrase with
  | literal token value => exact other _ rfl (List.forall_mem_nil _)
  | name token name => exact other _ rfl (List.forall_mem_nil _)
  | group opening inner closing ih => exact group opening inner closing ih
  | unary operator token operand ih => exact other _ rfl (List.forall_mem_singleton.mpr ih)
  | binary operator left token right ihLeft ihRight =>
      exact other _ rfl (List.forall_mem_cons.mpr ⟨ihLeft, List.forall_mem_singleton.mpr ihRight⟩)
  | call callee name opening arguments commas closing ih => exact other _ rfl ih
  | index array name opening subscript closing ih =>
      exact other _ rfl (List.forall_mem_singleton.mpr ih)

variable {part phrase : Phrase τ}

theorem Grammatical.of_mem_parts {lexeme : τ → Lexeme} (grammatical : phrase.Grammatical lexeme) :
    ∀ part ∈ phrase.parts, part.Grammatical lexeme := by
  cases grammatical with
  | literal reads => exact List.forall_mem_nil _
  | constant word reads => exact List.forall_mem_nil _
  | name word free same => exact List.forall_mem_nil _
  | group opens closes inside => exact List.forall_mem_singleton.mpr inside
  | unary writes tight inside => exact List.forall_mem_singleton.mpr inside
  | binary writes tightLeft tightRight onLeft onRight =>
      exact List.forall_mem_cons.mpr ⟨onLeft, List.forall_mem_singleton.mpr onRight⟩
  | call word free same opens closes separate count inside => exact inside
  | index word free same opens closes inside => exact List.forall_mem_singleton.mpr inside

theorem depth_le_of_mem_parts (member : part ∈ phrase.parts) : part.depth ≤ phrase.depth := by
  cases phrase with
  | literal token value => cases member
  | name token name => cases member
  | binary operator left token right =>
      rcases List.mem_pair.mp member with rfl | rfl
      · exact Nat.le_max_left _ _
      · exact Nat.le_max_right _ _
  | call callee name opening arguments commas closing =>
      have deeper := depthOfEach_lt_iff.mp (Nat.lt_succ_self (depthOfEach arguments)) part member
      rw [depth]
      omega
  | group opening inner closing
  | unary operator token inner
  | index array name opening inner closing =>
      obtain rfl := List.mem_singleton.mp member
      exact Nat.le_succ _

theorem isInfix_weave {α : Type} {within : List α} {parts : List (List α)}
    (member : within ∈ parts) (separators : List (List α)) :
    within <:+: weave parts separators := by
  induction parts generalizing separators with
  | nil => cases member
  | cons first rest ih =>
      cases separators with
      | nil => exact List.infix_of_mem_flatten member
      | cons separator separators =>
          rcases List.mem_cons.mp member with rfl | later
          · rw [weave, List.append_assoc]
            exact (List.prefix_append _ _).isInfix
          · exact (ih later separators).trans (List.suffix_append _ _).isInfix

theorem tokens_isInfix_of_mem_parts (member : part ∈ phrase.parts) :
    part.tokens <:+: phrase.tokens := by
  cases phrase with
  | literal token value => cases member
  | name token name => cases member
  | group opening inner closing =>
      obtain rfl := List.mem_singleton.mp member
      exact ⟨[opening], [closing], rfl⟩
  | unary operator token operand =>
      obtain rfl := List.mem_singleton.mp member
      exact (List.suffix_cons token _).isInfix
  | binary operator left token right =>
      rcases List.mem_pair.mp member with rfl | rfl
      · exact (List.prefix_append _ _).isInfix
      · exact ⟨left.tokens ++ [token], [], by simp [tokens]⟩
  | call callee name opening arguments commas closing =>
      have among : part.tokens ∈ tokensOfEach arguments := by
        rw [tokensOfEach_eq_map]
        exact List.mem_map_of_mem member
      exact (isInfix_weave among _).trans ⟨[callee, opening], [closing], rfl⟩
  | index array name opening subscript closing =>
      obtain rfl := List.mem_singleton.mp member
      exact ⟨[array, opening], [closing], rfl⟩

namespace IsPart

theorem grammatical {lexeme : τ → Lexeme} (isPart : part.IsPart phrase)
    (grammatical : phrase.Grammatical lexeme) : part.Grammatical lexeme := by
  induction isPart with
  | whole => exact grammatical
  | inside member within ih => exact ih (grammatical.of_mem_parts _ member)

theorem depth_le (isPart : part.IsPart phrase) : part.depth ≤ phrase.depth := by
  induction isPart with
  | whole => exact Nat.le.refl
  | inside member within ih => exact ih.trans (depth_le_of_mem_parts member)

theorem tokens_isInfix (isPart : part.IsPart phrase) : part.tokens <:+: phrase.tokens := by
  induction isPart with
  | whole => exact List.infix_rfl
  | inside member within ih => exact ih.trans (tokens_isInfix_of_mem_parts member)

end IsPart

/-! ## Nodes of parts -/

/-- What the root of a phrase is when the nodes of the parts are numbered from `base` on. -/
def rootKind (base : Nat) : Phrase τ → NodeKind
  | literal _ value => .literal value
  | name _ identifier => .name identifier
  | group _ inner _ => inner.rootKind base
  | unary operator _ operand => .unary operator (operand.rootFrom base)
  | binary operator left _ right =>
      .binary operator (left.rootFrom base) (right.rootFrom (base + left.size))
  | call _ function _ arguments _ _ => .call function (rootsFrom base arguments)
  | index _ array _ subscript _ => .index array (subscript.rootFrom base)

/-- The operands of the root of a phrase that is no group are the roots of its parts. -/
theorem children_rootKind {phrase : Phrase τ} (notGroup : phrase.isGroup = false) (base : Nat) :
    (phrase.rootKind base).children = rootsFrom base phrase.parts := by
  cases phrase with
  | group opening inner closing => cases notGroup
  | _ => rfl

/-- The parts of a phrase that is no group come before its root. -/
theorem size_eq_of_not_isGroup {phrase : Phrase τ} (notGroup : phrase.isGroup = false) :
    phrase.size = sizeOfAll phrase.parts + 1 := by
  cases phrase with
  | group opening inner closing => cases notGroup
  | _ => simp [size, sizeOfAll, parts]

theorem nodesFrom_eq_of_not_isGroup {phrase : Phrase Token} (notGroup : phrase.isGroup = false)
    (base : Nat) (parent : Option Nat) :
    phrase.nodesFrom base parent =
      nodesOfEach base (some (base + sizeOfAll phrase.parts)) phrase.parts ++
        [⟨phrase.rootKind base, phrase.span, parent⟩] := by
  cases phrase with
  | group opening inner closing => cases notGroup
  | literal token value => simp [nodesFrom, nodesOfEach, parts, rootKind, span, first, last]
  | name token name => simp [nodesFrom, nodesOfEach, parts, rootKind, span, first, last]
  | _ => simp [nodesFrom, nodesOfEach, sizeOfAll, parts, rootKind, Nat.add_assoc]

end Phrase

namespace NodeTable

variable {table : NodeTable} {phrase : Phrase Token} {base number : Nat}

/-- The nodes of a phrase, numbered from `base` on, are successive nodes of a table. -/
def Holds (table : NodeTable) (base : Nat) (phrase : Phrase Token) : Prop :=
  ∃ before parent after, before.length = base ∧
    table.nodes.toList = before ++ (phrase.nodesFrom base parent ++ after)

theorem holds_table (phrase : Phrase Token) : phrase.table.Holds 0 phrase :=
  ⟨[], none, [], rfl, by simp [Phrase.table]⟩

open Phrase in
/-- A number among those of some phrases is among those of one of them. -/
theorem exists_holds_of_nodesOfEach {phrases : List (Phrase Token)} {before after : List Node}
    {parent : Option Nat}
    (nodes : table.nodes.toList = before ++ (nodesOfEach before.length parent phrases ++ after))
    (least : before.length ≤ number) (most : number < before.length + sizeOfAll phrases) :
    ∃ phrase ∈ phrases, ∃ base, table.Holds base phrase ∧ base ≤ number ∧
      number < base + phrase.size := by
  induction phrases generalizing before with
  | nil =>
      rw [sizeOfAll] at most
      omega
  | cons first rest ih =>
      rw [nodesOfEach, List.append_assoc] at nodes
      by_cases inFirst : number < before.length + first.size
      · exact ⟨first, List.mem_cons_self, before.length, ⟨before, parent, _, rfl, nodes⟩, least,
          inFirst⟩
      · have passed : (before ++ first.nodesFrom before.length parent).length =
            before.length + first.size := by
          rw [List.length_append, first.length_nodesFrom]
        rw [← passed, ← List.append_assoc] at nodes
        rw [sizeOfAll] at most
        obtain ⟨phrase, member, found⟩ := ih nodes (by omega) (by omega)
        exact ⟨phrase, List.mem_cons_of_mem _ member, found⟩

/-- Every node of a phrase is the root of a part that is no group. -/
theorem Holds.exists_isPart (holds : table.Holds base phrase) (least : base ≤ number)
    (most : number < base + phrase.size) :
    ∃ part start, part.IsPart phrase ∧ part.isGroup = false ∧ table.Holds start part ∧
      part.rootFrom start = number := by
  induction phrase using Phrase.induction_parts generalizing base with
  | group opening inner closing ih =>
      obtain ⟨part, start, isPart, found⟩ := ih holds least most
      exact ⟨part, start, .inside (List.mem_singleton_self _) isPart, found⟩
  | other phrase notGroup ih =>
      have size := Phrase.size_eq_of_not_isGroup notGroup
      by_cases isRoot : phrase.rootFrom base = number
      · exact ⟨phrase, base, .whole, notGroup, holds, isRoot⟩
      · rw [Phrase.rootFrom] at isRoot
        obtain ⟨before, parent, after, rfl, nodes⟩ := holds
        rw [Phrase.nodesFrom_eq_of_not_isGroup notGroup, List.append_assoc] at nodes
        obtain ⟨operand, member, base, holds, least, most⟩ :=
          exists_holds_of_nodesOfEach nodes least (by omega)
        obtain ⟨part, start, isPart, found⟩ := ih operand member holds least most
        exact ⟨part, start, .inside member isPart, found⟩

end NodeTable

end JassExpr
