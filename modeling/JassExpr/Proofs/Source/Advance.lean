import JassExpr.Proofs.Source.LineMap
import JassExpr.Source.Span
import Mathlib.Data.List.Induction

/-!
# Positions by reading on

A reader who counts lines and columns goes on with each character: by one column, or to the start of
the next line when it is a line feed. From the first place of a text, behind the mark in front, this
gives the positions of all places between characters. The position of such a place is therefore
known from the text in front of it alone.
-/

namespace JassExpr

/-- The position behind a text that begins at a position. -/
def Position.advance : Position → List Char → Position
  | position, [] => position
  | position, character :: rest =>
      advance
        (if character = '\n' then ⟨position.line + 1, 1⟩ else ⟨position.line, position.column + 1⟩)
        rest

theorem Position.advance_append (position : Position) (text more : List Char) :
    position.advance (text ++ more) = (position.advance text).advance more := by
  induction text generalizing position with
  | nil => rfl
  | cons character text ih => rw [List.cons_append, advance, advance, ih]

namespace Source

variable {start stop other offset : Nat}

/-- Counting up to any offset behind a text counts all of it. -/
theorem charactersWithin_of_stop_le {text : List Char} (inside : offset + byteLength text ≤ stop)
    (insideOther : offset + byteLength text ≤ other) :
    charactersWithin start stop offset text = charactersWithin start other offset text := by
  induction text generalizing offset with
  | nil => rfl
  | cons character text ih =>
      have positive := character.utf8Size_pos
      rw [byteLength_cons] at inside insideOther
      have sameHere : start ≤ offset ∧ offset < stop ↔ start ≤ offset ∧ offset < other := by omega
      rw [charactersWithin, charactersWithin, ih (by omega) (by omega)]
      simp only [sameHere]

/-- No character of a text lies in front of it. -/
theorem charactersWithin_of_le_offset (text : List Char) (before : stop ≤ offset) :
    charactersWithin start stop offset text = 0 := by
  induction text generalizing offset with
  | nil => rfl
  | cons character text ih => rw [charactersWithin, if_neg (by omega), ih (by omega)]

theorem charactersWithin_eq_length {text : List Char} (from_ : start ≤ offset)
    (upTo : offset + byteLength text ≤ stop) :
    charactersWithin start stop offset text = text.length := by
  induction text generalizing offset with
  | nil => rfl
  | cons character text ih =>
      have positive := character.utf8Size_pos
      rw [byteLength_cons] at upTo
      rw [charactersWithin, if_pos (by omega), ih (by omega) (by omega), List.length_cons,
        Nat.add_comm]

/-- Where the last line of a text starts, given where the first one does. -/
def lastStart (first : Nat) (text : List Char) : Nat :=
  (offsetsAfterLineFeeds 0 text).getLastD first

theorem lastStart_le {first : Nat} {text : List Char} (inside : first ≤ byteLength text) :
    lastStart first text ≤ byteLength text := by
  rw [lastStart, List.getLastD_eq_getLast?]
  cases isLast : (offsetsAfterLineFeeds 0 text).getLast? with
  | none => exact inside
  | some last =>
      have bounds := offsetsAfterLineFeeds_bounds 0 text last (List.mem_of_getLast? isLast)
      simpa using bounds.2

theorem lastStart_concat (first : Nat) (text : List Char) (character : Char) :
    lastStart first (text ++ [character]) =
      if character = '\n' then byteLength text + 1 else lastStart first text := by
  rw [lastStart, offsetsAfterLineFeeds_append, offsetsAfterLineFeeds, offsetsAfterLineFeeds,
    offsetsAfterLineFeeds]
  split
  · rw [List.getLastD_concat, Nat.zero_add]
  · rw [List.append_nil, lastStart]

/-- Where the last line of a text starts, the text falls into two parts. -/
theorem exists_lastStart (mark more : List Char) (noFeeds : offsetsAfterLineFeeds 0 mark = []) :
    ∃ front line, mark ++ more = front ++ line ∧
      byteLength front = lastStart (byteLength mark) (mark ++ more) := by
  induction more using List.reverseRecOn with
  | nil =>
      refine ⟨mark, [], rfl, ?_⟩
      rw [List.append_nil, lastStart, noFeeds, List.getLastD_nil]
  | append_singleton more character ih =>
      obtain ⟨front, line, whole, starts⟩ := ih
      rw [← List.append_assoc, lastStart_concat]
      by_cases isFeed : character = '\n'
      · subst isFeed
        refine ⟨mark ++ more ++ ['\n'], [], (List.append_nil _).symm, ?_⟩
        rw [if_pos rfl, byteLength_append]
        rfl
      · refine ⟨front, line ++ [character], ?_, ?_⟩
        · rw [whole, List.append_assoc]
        · rw [if_neg isFeed, starts]

/-- The characters from one place of a text to a later one are those of the part between them. -/
theorem charactersWithin_middle (front middle back : List Char) :
    charactersWithin (byteLength front) (byteLength (front ++ middle)) 0 (front ++ middle ++ back) =
      middle.length := by
  have noneInFront : charactersWithin (byteLength front) (byteLength (front ++ middle)) 0 front =
      0 := charactersWithin_of_le (by omega)
  have noneBehind : charactersWithin (byteLength front) (byteLength (front ++ middle))
      (0 + byteLength (front ++ middle)) back = 0 := charactersWithin_of_le_offset back (by omega)
  have allInMiddle : charactersWithin (byteLength front) (byteLength (front ++ middle))
      (0 + byteLength front) middle = middle.length := by
    apply charactersWithin_eq_length
    · omega
    · rw [byteLength_append]
      omega
  rw [charactersWithin_append, charactersWithin_append, noneInFront, allInMiddle, noneBehind]
  omega

theorem linesBefore_append (front back : List Char) :
    linesBefore (front ++ back) (byteLength front) = front.count '\n' := by
  have inFront : (offsetsAfterLineFeeds 0 front).countP (· ≤ byteLength front) =
      front.count '\n' :=
    countP_offsetsAfterLineFeeds Nat.le.refl
  have inBack : (offsetsAfterLineFeeds (0 + byteLength front) back).countP
      (· ≤ byteLength front) = 0 := by
    rw [List.countP_eq_zero]
    intro start member
    have := offsetsAfterLineFeeds_bounds _ back start member
    simp only [decide_eq_true_eq]
    omega
  rw [linesBefore, offsetsAfterLineFeeds_append, List.countP_append, inFront, inBack, Nat.add_zero]

theorem getD_lineStarts_append (front back : List Char) :
    (lineStarts (front ++ back)).getD (front.count '\n') 0 =
      lastStart (textStart (front ++ back)) front := by
  rw [lineStarts, offsetsAfterLineFeeds_append, ← length_offsetsAfterLineFeeds 0 front, lastStart]
  generalize offsetsAfterLineFeeds 0 front = starts
  generalize textStart (front ++ back) = first
  rcases List.eq_nil_or_concat starts with rfl | ⟨earlier, last, rfl⟩
  · rfl
  · rw [List.concat_eq_append, List.getLastD_concat, List.length_append, List.length_singleton,
      List.getD_cons_succ,
      List.append_assoc, List.getD_append_right _ _ _ _ Nat.le.refl, Nat.sub_self]
    rfl

/-- The position behind a text in which the first line starts at an offset. -/
def positionBehind (first : Nat) (text : List Char) : Position :=
  ⟨text.count '\n' + 1,
    charactersWithin (lastStart first text) (byteLength text) 0 text + 1⟩

theorem positionBehind_concat {first : Nat} {text : List Char} (inside : first ≤ byteLength text)
    (character : Char) :
    positionBehind first (text ++ [character]) =
      (positionBehind first text).advance [character] := by
  have notAfter := lastStart_le inside
  have positive := character.utf8Size_pos
  rw [positionBehind, positionBehind, lastStart_concat, Position.advance, Position.advance]
  by_cases isFeed : character = '\n'
  · subst isFeed
    have size : '\n'.utf8Size = 1 := rfl
    have whole : 0 + byteLength (text ++ ['\n']) ≤ byteLength text + 1 := by
      simp [size]
    rw [if_pos rfl, if_pos rfl, charactersWithin_of_le whole, List.count_append]
    rfl
  · have sameText : charactersWithin (lastStart first text) (byteLength (text ++ [character])) 0
        text = charactersWithin (lastStart first text) (byteLength text) 0 text := by
      apply charactersWithin_of_stop_le <;> simp
    have one : charactersWithin (lastStart first text) (byteLength (text ++ [character]))
        (0 + byteLength text) [character] = 1 := by
      rw [charactersWithin, if_pos (by simp; omega), charactersWithin]
    have noFeed : [character].count '\n' = 0 := by simp [isFeed]
    rw [if_neg isFeed, if_neg isFeed, charactersWithin_append, sameText, one, List.count_append,
      noFeed]

theorem positionBehind_append {first : Nat} {text : List Char} (inside : first ≤ byteLength text)
    (more : List Char) :
    positionBehind first (text ++ more) = (positionBehind first text).advance more := by
  induction more generalizing text with
  | nil => rw [List.append_nil, Position.advance]
  | cons character more ih =>
      have insideNext : first ≤ byteLength (text ++ [character]) := by
        rw [byteLength_append]
        omega
      rw [List.append_cons, ih insideNext, positionBehind_concat inside,
        ← Position.advance_append, List.singleton_append]

theorem positionBehind_mark (text : List Char) :
    positionBehind (textStart text) (splitMark text).1 = ⟨1, 1⟩ := by
  have noFeeds := offsetsAfterLineFeeds_mark 0 text
  have noFeed : (splitMark text).1.count '\n' = 0 := by
    rw [← length_offsetsAfterLineFeeds 0, noFeeds, List.length_nil]
  have starts : lastStart (textStart text) (splitMark text).1 = textStart text := by
    rw [lastStart, noFeeds, List.getLastD_nil]
  have whole : 0 + byteLength (splitMark text).1 ≤ textStart text := by
    rw [Nat.zero_add]
    exact Nat.le.refl
  rw [positionBehind, noFeed, starts, charactersWithin_of_le whole]

end Source

/-- The part of a source between two places is sliced off it. -/
theorem Span.slice?_of_append {source : String} {front middle back : List Char}
    (whole : source.toList = front ++ middle ++ back) :
    (Span.mk (Source.byteLength front) (Source.byteLength (front ++ middle))).slice? source =
      some (String.ofList middle) := by
  have sliced : Source.slice? (Source.byteLength front) (Source.byteLength (front ++ middle))
      source.toList = some middle :=
    Source.slice?_eq_some_iff.mpr ⟨front, back, whole.symm, rfl, rfl⟩
  rw [Span.slice?, sliced]
  rfl

namespace LineMap

open Source

variable {source : String} {front back : List Char}

/-- The position of a place between characters depends on the text in front of it alone, and on
where the first line starts. -/
theorem position_of_append (whole : source.toList = front ++ back)
    (inside : textStart source.toList ≤ byteLength front) :
    (ofSource source).position (byteLength front) =
      positionBehind (textStart source.toList) front := by
  have clamped : clampOffset source.toList (byteLength front) = byteLength front := by
    rw [clampOffset, whole, byteLength_append, ← whole]
    omega
  have noneBehind : charactersWithin (lastStart (textStart (front ++ back)) front)
      (byteLength front) (0 + byteLength front) back = 0 :=
    charactersWithin_of_le_offset back (by omega)
  rw [position_ofSource, clamped, whole, linesBefore_append, getD_lineStarts_append,
    charactersWithin_append, noneBehind]
  rfl

/-- The line of a place between characters starts at another such place. -/
theorem exists_line_of_append (whole : source.toList = front ++ back)
    (marked : (splitMark source.toList).1 <+: front) :
    ∃ earlier line, front = earlier ++ line ∧
      (ofSource source).clamp (byteLength front) = byteLength front ∧
        (ofSource source).startOf ((ofSource source).lineBetween (byteLength front) 0
          (ofSource source).lineCount) = byteLength earlier := by
  obtain ⟨more, isFront⟩ := marked
  have inside : textStart source.toList ≤ byteLength front := by
    rw [← isFront, byteLength_append, textStart]
    omega
  have clamped : (ofSource source).clamp (byteLength front) = byteLength front := by
    rw [clamp_ofSource, clampOffset, whole, byteLength_append, ← whole]
    omega
  obtain ⟨earlier, line, parts, starts⟩ :=
    exists_lastStart (splitMark source.toList).1 more (offsetsAfterLineFeeds_mark 0 _)
  rw [isFront] at parts starts
  refine ⟨earlier, line, parts, clamped, ?_⟩
  rw [lineBetween_ofSource source inside, startOf_ofSource, whole, linesBefore_append,
    getD_lineStarts_append, ← whole, starts, textStart]

/-- Positions are found by reading on from the first place of a text. -/
theorem position_eq_advance (whole : (splitMark source.toList).2 = front ++ back) :
    (ofSource source).position (textStart source.toList + byteLength front) =
      (⟨1, 1⟩ : Position).advance front := by
  have parts : source.toList = (splitMark source.toList).1 ++ front ++ back := by
    rw [List.append_assoc, ← whole, splitMark_append]
  have inside : textStart source.toList ≤ byteLength ((splitMark source.toList).1 ++ front) := by
    rw [byteLength_append, textStart]
    omega
  have position := position_of_append parts inside
  have starts : textStart source.toList ≤ byteLength (splitMark source.toList).1 := Nat.le.refl
  rwa [byteLength_append, positionBehind_append starts, positionBehind_mark] at position

end LineMap

end JassExpr
