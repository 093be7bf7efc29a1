/-!
# Byte extents of a text

Offsets into a text count the bytes of its UTF-8 form. This file measures a list of characters
in bytes, and cuts it at a byte offset when that offset lies between two characters.
-/

namespace JassExpr

namespace Source

/-- Number of bytes in the UTF-8 form of a text. -/
def byteLength : List Char → Nat
  | [] => 0
  | character :: rest => character.utf8Size + byteLength rest

@[simp]
theorem byteLength_nil : byteLength [] = 0 :=
  rfl

@[simp]
theorem byteLength_cons (character : Char) (rest : List Char) :
    byteLength (character :: rest) = character.utf8Size + byteLength rest :=
  rfl

@[simp]
theorem byteLength_append (first second : List Char) :
    byteLength (first ++ second) = byteLength first + byteLength second := by
  induction first with
  | nil => simp
  | cons character rest ih => simp [ih, Nat.add_assoc]

theorem byteLength_eq_zero_iff {text : List Char} :
    byteLength text = 0 ↔ text = [] := by
  cases text with
  | nil => simp
  | cons character rest =>
      have := character.utf8Size_pos
      simp only [byteLength_cons, reduceCtorEq, iff_false]
      omega

/-- The characters before a byte offset and the characters from it on, when the offset lies on a
character boundary of the text. -/
def splitAt? : Nat → List Char → Option (List Char × List Char)
  | 0, text => some ([], text)
  | _ + 1, [] => none
  | offset + 1, character :: rest =>
      if character.utf8Size ≤ offset + 1 then
        (splitAt? (offset + 1 - character.utf8Size) rest).map
          fun (before, after) => (character :: before, after)
      else
        none

/-- A cut is found exactly where the text falls into two parts of which the first has the
wanted length. -/
theorem splitAt?_eq_some_iff {offset : Nat} {text before after : List Char} :
    splitAt? offset text = some (before, after) ↔
      before ++ after = text ∧ byteLength before = offset := by
  induction text generalizing offset before after with
  | nil =>
      cases offset with
      | zero => cases before <;> simp [splitAt?, eq_comm]
      | succ offset =>
          cases before with
          | nil => simp [splitAt?]
          | cons character rest => simp [splitAt?]
  | cons character rest ih =>
      have positive := character.utf8Size_pos
      cases offset with
      | zero =>
          cases before with
          | nil => simp [splitAt?, eq_comm]
          | cons first others =>
              have := first.utf8Size_pos
              simp only [splitAt?, Option.some.injEq, Prod.mk.injEq, reduceCtorEq, false_and,
                List.cons_append, List.cons.injEq, byteLength_cons, false_iff]
              omega
      | succ offset =>
          cases before with
          | nil =>
              simp only [splitAt?]
              split <;> simp
          | cons first others =>
              simp only [splitAt?]
              split
              · simp only [Option.map_eq_some_iff, Prod.exists, Prod.mk.injEq, List.cons.injEq,
                  ih, List.cons_append, byteLength_cons]
                constructor
                · rintro ⟨found, found', ⟨whole, length⟩, ⟨rfl, rfl⟩, rfl⟩
                  exact ⟨⟨rfl, whole⟩, by omega⟩
                · rintro ⟨⟨rfl, whole⟩, length⟩
                  exact ⟨others, after, ⟨whole, by omega⟩, ⟨rfl, rfl⟩, rfl⟩
              · simp only [reduceCtorEq, List.cons_append, List.cons.injEq, byteLength_cons,
                  false_iff]
                rintro ⟨⟨rfl, -⟩, length⟩
                omega

/-- The characters between two byte offsets, when both lie on character boundaries and the
first is not after the second. -/
def slice? (start stop : Nat) (text : List Char) : Option (List Char) :=
  if start ≤ stop then
    (splitAt? start text).bind fun (_, fromStart) =>
      (splitAt? (stop - start) fromStart).map Prod.fst
  else
    none

/-- A slice is the middle part of a text whose first part ends at the one offset and whose
middle part ends at the other. -/
theorem slice?_eq_some_iff {start stop : Nat} {text middle : List Char} :
    slice? start stop text = some middle ↔
      ∃ before after, before ++ middle ++ after = text ∧
        byteLength before = start ∧ byteLength (before ++ middle) = stop := by
  simp only [slice?]
  split
  · rename_i inOrder
    simp only [Option.bind_eq_some_iff, Prod.exists, splitAt?_eq_some_iff, Option.map_eq_some_iff,
      byteLength_append]
    constructor
    · rintro ⟨before, fromStart, ⟨whole, startEq⟩, _, after, ⟨rest, length⟩, rfl⟩
      exact ⟨before, after, by rw [← whole, ← rest, List.append_assoc], startEq, by omega⟩
    · rintro ⟨before, after, whole, startEq, stopEq⟩
      exact ⟨before, middle ++ after, ⟨by rw [← whole, List.append_assoc], startEq⟩,
        middle, after, ⟨rfl, by omega⟩, rfl⟩
  · rename_i outOfOrder
    simp only [reduceCtorEq, byteLength_append, false_iff]
    rintro ⟨before, after, -, startEq, stopEq⟩
    omega

end Source

end JassExpr
