import JassExpr.Phrase.Basic

/-!
# Items with separators

Arguments have commas between them. Both stand in lists of their own, and whatever is proved of
arguments with their commas follows the way in which the two lists alternate.
-/

namespace JassExpr

/-- Items with one separator between each two. -/
inductive Alternating {α β : Type} : List α → List β → Prop
  | nil : Alternating [] []
  | singleton (item : α) : Alternating [item] []
  | cons (item : α) (separator : β) {items : List α} {separators : List β} (some : items ≠ [])
      (others : Alternating items separators) :
      Alternating (item :: items) (separator :: separators)

theorem Alternating.of_length {α β : Type} {items : List α} {separators : List β}
    (count : separators.length = items.length - 1) : Alternating items separators := by
  induction items generalizing separators with
  | nil =>
      obtain rfl : separators = [] := List.length_eq_zero_iff.mp count
      exact .nil
  | cons item items ih =>
      cases separators with
      | nil =>
          obtain rfl : items = [] := List.length_eq_zero_iff.mp count.symm
          exact .singleton item
      | cons separator separators =>
          have some : items ≠ [] := by
            rintro rfl
            cases count
          have fewer : separators.length = items.length - 1 := by
            simp only [List.length_cons] at count
            omega
          exact .cons item separator some (ih fewer)

theorem map_weave {α β : Type} (function : α → β) (parts separators : List (List α)) :
    (weave parts separators).map function =
      weave (parts.map (List.map function)) (separators.map (List.map function)) := by
  induction parts generalizing separators with
  | nil => cases separators <;> simp [weave]
  | cons first rest ih => cases separators <;> simp [weave, ih, List.map_flatten]

/-- Parts that are sublists of others make a sublist, with the same separators. -/
theorem weave_sublist {α : Type} {parts others : List (List α)} (separators : List (List α))
    (count : parts.length = others.length)
    (each : ∀ pair ∈ parts.zip others, pair.1.Sublist pair.2) :
    (weave parts separators).Sublist (weave others separators) := by
  induction parts generalizing others separators with
  | nil =>
      obtain rfl : others = [] := List.length_eq_zero_iff.mp count.symm
      exact List.Sublist.refl _
  | cons part parts ih =>
      cases others with
      | nil => cases count
      | cons other others =>
          rw [List.zip_cons_cons, List.forall_mem_cons] at each
          cases separators with
          | nil =>
              have rest := ih [] (Nat.succ.inj count) each.2
              cases parts <;> cases others <;> simp_all [weave, List.Sublist.append]
          | cons separator separators =>
              rw [weave, weave]
              exact (each.1.append (List.Sublist.refl _)).append
                (ih separators (Nat.succ.inj count) each.2)

end JassExpr
