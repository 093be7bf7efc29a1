import JassExpr.Proofs.Source.Advance

/-!
# Texts with one kind of line end

Where a text has a carriage return and a line feed for the end of a line, the line feed alone says
as much. This file replaces all such pairs: what that does to the parts of a text, to their lengths,
and to positions in it. A carriage return that stands alone is left.
-/

namespace JassExpr

namespace Source

/-- A text with a line feed for each pair of a carriage return and a line feed. -/
def unifyLineEnds : List Char → List Char
  | [] => []
  | '\r' :: '\n' :: rest => '\n' :: unifyLineEnds rest
  | character :: rest => character :: unifyLineEnds rest

/-- The number of pairs of a carriage return and a line feed, in a text that begins at the given
offset, that end at `stop` or before it. -/
def lineEndPairs (stop offset : Nat) : List Char → Nat
  | [] => 0
  | '\r' :: '\n' :: rest =>
      (if offset + 2 ≤ stop then 1 else 0) + lineEndPairs stop (offset + 2) rest
  | character :: rest => lineEndPairs stop (offset + character.utf8Size) rest

variable {text : List Char}

/-- In front of other characters, a character is left out or kept. -/
theorem unifyLineEnds_cons (first : Char) (rest : List Char) :
    (∃ after, first = '\r' ∧ rest = '\n' :: after ∧
      unifyLineEnds (first :: rest) = unifyLineEnds rest) ∨
        (first = '\r' → rest.head? ≠ some '\n') ∧
          unifyLineEnds (first :: rest) = first :: unifyLineEnds rest := by
  by_cases isPair : ∃ after, first = '\r' ∧ rest = '\n' :: after
  · obtain ⟨after, rfl, rfl⟩ := isPair
    exact .inl ⟨after, rfl, rfl, rfl⟩
  · apply Or.inr
    constructor
    · intro isReturn isFeed
      obtain ⟨after, follows⟩ := List.head?_eq_some_iff.mp isFeed
      exact isPair ⟨after, isReturn, follows⟩
    · apply unifyLineEnds.eq_3
      intro after isReturn follows
      exact isPair ⟨after, isReturn, follows⟩

theorem unifyLineEnds_cons_of_ne {first : Char} (notReturn : first ≠ '\r') (rest : List Char) :
    unifyLineEnds (first :: rest) = first :: unifyLineEnds rest := by
  rcases unifyLineEnds_cons first rest with ⟨-, isReturn, -⟩ | ⟨-, kept⟩
  · exact absurd isReturn notReturn
  · exact kept

theorem unifyLineEnds_of_notMem (noReturn : '\r' ∉ text) : unifyLineEnds text = text := by
  induction text with
  | nil => rfl
  | cons first rest ih =>
      rw [List.mem_cons, not_or] at noReturn
      rw [unifyLineEnds_cons_of_ne (Ne.symm noReturn.1), ih noReturn.2]

/-- The next character stays the same, or it was the first of a pair. -/
theorem head?_unifyLineEnds (text : List Char) :
    (unifyLineEnds text).head? = text.head? ∨
      text.head? = some '\r' ∧ (unifyLineEnds text).head? = some '\n' := by
  cases text with
  | nil => exact .inl rfl
  | cons first rest =>
      rcases unifyLineEnds_cons first rest with ⟨after, rfl, rfl, -⟩ | ⟨-, kept⟩
      · exact .inr ⟨rfl, rfl⟩
      · apply Or.inl
        rw [kept]
        rfl

/-- The parts of a text are changed one by one where no pair is cut. -/
theorem unifyLineEnds_append {first second : List Char}
    (uncut : first.getLast? = some '\r' → second.head? ≠ some '\n') :
    unifyLineEnds (first ++ second) = unifyLineEnds first ++ unifyLineEnds second := by
  fun_induction unifyLineEnds first with
  | case1 => rfl
  | case2 rest ih =>
      have uncutRest : rest.getLast? = some '\r' → second.head? ≠ some '\n' := by
        intro isLast
        apply uncut
        rw [List.getLast?_cons, List.getLast?_cons, isLast]
        rfl
      rw [List.cons_append, List.cons_append, unifyLineEnds, ih uncutRest, List.cons_append]
  | case3 first rest notPair ih =>
      have uncutRest : rest.getLast? = some '\r' → second.head? ≠ some '\n' := by
        intro isLast
        apply uncut
        rw [List.getLast?_cons, isLast]
        rfl
      have notPairHere : ∀ after, first = '\r' → rest ++ second = '\n' :: after → False := by
        intro after isReturn follows
        cases rest with
        | nil =>
            apply uncut (by rw [isReturn]; rfl)
            rw [List.nil_append] at follows
            rw [follows]
            rfl
        | cons next others => exact notPair others isReturn (by rw [(List.cons.inj follows).1])
      rw [List.cons_append, unifyLineEnds.eq_3 _ _ notPairHere, ih uncutRest, List.cons_append]

theorem unifyLineEnds_append_cons (first : List Char) {next : Char} (notFeed : next ≠ '\n')
    (rest : List Char) :
    unifyLineEnds (first ++ next :: rest) =
      unifyLineEnds first ++ unifyLineEnds (next :: rest) := by
  apply unifyLineEnds_append
  intro isReturn begins
  exact notFeed (Option.some.inj begins)

/-- The mark in front is no part of the lines. -/
theorem splitMark_unifyLineEnds (text : List Char) :
    splitMark (unifyLineEnds text) = ((splitMark text).1, unifyLineEnds (splitMark text).2) := by
  cases text with
  | nil => rfl
  | cons first rest =>
      by_cases isMark : first = byteOrderMark
      · subst isMark
        have notReturn : byteOrderMark ≠ '\r' := by decide
        rw [unifyLineEnds_cons_of_ne notReturn, splitMark, splitMark, if_pos rfl, if_pos rfl]
      · have noMark : (first :: rest).head? ≠ some byteOrderMark := by simpa using isMark
        have noMarkUnified : (unifyLineEnds (first :: rest)).head? ≠ some byteOrderMark := by
          rcases head?_unifyLineEnds (first :: rest) with same | ⟨-, isFeed⟩
          · rwa [same]
          · rw [isFeed]
            decide
        rw [splitMark_of_head?_ne noMark, splitMark_of_head?_ne noMarkUnified]

theorem lineEndPairs_of_le {stop offset : Nat} (behind : stop ≤ offset) (text : List Char) :
    lineEndPairs stop offset text = 0 := by
  fun_induction lineEndPairs stop offset text with
  | case1 => rfl
  | case2 offset rest ih => rw [if_neg (by omega), ih (by omega)]
  | case3 offset character rest notPair ih => exact ih (by omega)

/-- A text gets shorter by one byte for each of its pairs, whatever follows it. -/
theorem byteLength_unifyLineEnds (front back : List Char) (offset : Nat) :
    byteLength (unifyLineEnds front) + lineEndPairs (offset + byteLength front) offset
      (front ++ back) = byteLength front := by
  fun_induction unifyLineEnds front generalizing offset with
  | case1 =>
      have noneBehind := lineEndPairs_of_le (Nat.le_refl offset) back
      simpa using noneBehind
  | case2 rest ih =>
      have size : byteLength ('\r' :: '\n' :: rest) = 2 + byteLength rest := by
        change 1 + (1 + byteLength rest) = _
        omega
      have sizeFeed : byteLength ('\n' :: unifyLineEnds rest) =
          1 + byteLength (unifyLineEnds rest) := rfl
      have others := ih (offset + 2)
      rw [Nat.add_assoc] at others
      rw [size, List.cons_append, List.cons_append, lineEndPairs, if_pos (by omega), sizeFeed]
      omega
  | case3 first rest notPair ih =>
      by_cases isCut : ∃ after, first = '\r' ∧ rest ++ back = '\n' :: after
      · obtain ⟨after, rfl, follows⟩ := isCut
        cases rest with
        | nil =>
            rw [List.nil_append] at follows
            have size : byteLength ['\r'] = 1 := rfl
            have noneBehind := lineEndPairs_of_le (Nat.le_succ (offset + 1)) after
            rw [follows, List.cons_append, List.nil_append, lineEndPairs, size, if_neg (by omega),
              noneBehind]
            rfl
        | cons next others => exact absurd (by rw [(List.cons.inj follows).1]) (notPair others rfl)
      · have notPairHere : ∀ after, first = '\r' → rest ++ back = '\n' :: after → False := by
          intro after isReturn follows
          exact isCut ⟨after, isReturn, follows⟩
        have others := ih (offset + first.utf8Size)
        rw [Nat.add_assoc] at others
        rw [List.cons_append, lineEndPairs.eq_3 _ _ _ _ notPairHere, byteLength_cons,
          byteLength_cons, Nat.add_assoc, others]

end Source

/-- A source with a line feed for each pair of a carriage return and a line feed. -/
def withLineFeeds (source : String) : String :=
  String.ofList (Source.unifyLineEnds source.toList)

open Source

/-- A pair of a carriage return and a line feed leads to the same place as the line feed alone. -/
theorem Position.advance_unifyLineEnds (position : Position) (text : List Char) :
    position.advance (unifyLineEnds text) = position.advance text := by
  induction text generalizing position with
  | nil => rfl
  | cons first rest ih =>
      rcases unifyLineEnds_cons first rest with ⟨after, rfl, rfl, same⟩ | ⟨-, kept⟩
      · rw [same, ih]
        rfl
      · rw [kept, advance, advance, ih]

theorem return_notMem_mark (text : List Char) : '\r' ∉ (splitMark text).1 := by
  cases text with
  | nil => exact List.not_mem_nil
  | cons first rest =>
      rw [splitMark]
      split
      · rename_i isMark
        simp [isMark, byteOrderMark]
      · exact List.not_mem_nil

/-- Behind any text in a source, offsets are smaller by the number of pairs in front. -/
theorem byteLength_unifyLineEnds_behind {source : String} {front back : List Char}
    (whole : (splitMark source.toList).2 = front ++ back) :
    textStart source.toList + byteLength (unifyLineEnds front) +
        lineEndPairs (textStart source.toList + byteLength front) 0 source.toList =
      textStart source.toList + byteLength front := by
  have noReturn := return_notMem_mark source.toList
  have unified : unifyLineEnds ((splitMark source.toList).1 ++ front) =
      (splitMark source.toList).1 ++ unifyLineEnds front := by
    rw [unifyLineEnds_append, unifyLineEnds_of_notMem noReturn]
    intro isLast
    exact absurd (List.mem_of_getLast? isLast) noReturn
  have parts : (splitMark source.toList).1 ++ front ++ back = source.toList := by
    rw [List.append_assoc, ← whole, splitMark_append]
  have shorter := byteLength_unifyLineEnds ((splitMark source.toList).1 ++ front) back 0
  rwa [unified, parts, Nat.zero_add, byteLength_append, byteLength_append] at shorter

end JassExpr
