import JassExpr.Source.LineMap
import Mathlib.Data.List.GetD
import Mathlib.Data.List.Pairwise

/-!
# Where lines start

The offsets just after the line feeds of a text come in order, so halving finds the line of an
offset: it is the number of those offsets that are not after it. A text behind a complete line has
the lines and columns that it has alone, as many lines further on as there are in front of it.
-/

namespace JassExpr

/-- A test that just the first items of a list pass is passed by as many items. -/
theorem countP_eq_of_forall_iff {α : Type} {items : List α} {test : α → Bool} {count : Nat}
    (within : count ≤ items.length)
    (passes : ∀ index, (isIndex : index < items.length) →
      (test items[index] = true ↔ index < count)) :
    items.countP test = count := by
  have first : (items.take count).countP test = count := by
    rw [List.countP_eq_length.mpr, List.length_take, Nat.min_eq_left within]
    intro item member
    obtain ⟨index, isIndex, rfl⟩ := List.mem_take_iff_getElem.mp member
    exact (passes index (by omega)).mpr (by omega)
  have others : (items.drop count).countP test = 0 := by
    rw [List.countP_eq_zero]
    intro item member
    obtain ⟨index, isIndex, rfl⟩ := List.mem_drop_iff_getElem.mp member
    rw [Nat.add_comm] at isIndex
    exact fun passed => absurd ((passes (count + index) isIndex).mp passed) (by omega)
  rw [← List.take_append_drop count items, List.countP_append, first, others, Nat.add_zero]

namespace Source

variable {offset start stop : Nat} {text : List Char}

theorem offsetsAfterLineFeeds_append (first second : List Char) :
    offsetsAfterLineFeeds offset (first ++ second) =
      offsetsAfterLineFeeds offset first ++
        offsetsAfterLineFeeds (offset + byteLength first) second := by
  induction first generalizing offset with
  | nil => rfl
  | cons character first ih =>
      have next : offset + (character.utf8Size + byteLength first) =
          offset + character.utf8Size + byteLength first := by omega
      rw [List.cons_append, offsetsAfterLineFeeds, offsetsAfterLineFeeds, byteLength_cons, next, ih,
        ih]
      split
      · rename_i isFeed
        subst isFeed
        rfl
      · rfl

/-- A text that begins further on has its line feeds further on. -/
theorem offsetsAfterLineFeeds_add (offset distance : Nat) (text : List Char) :
    offsetsAfterLineFeeds (offset + distance) text =
      (offsetsAfterLineFeeds offset text).map (· + distance) := by
  induction text generalizing offset with
  | nil => rfl
  | cons character text ih =>
      rw [offsetsAfterLineFeeds, offsetsAfterLineFeeds, Nat.add_right_comm offset distance 1,
        Nat.add_right_comm offset distance, ih, ih]
      split <;> rfl

theorem offsetsAfterLineFeeds_bounds (offset : Nat) (text : List Char) :
    ∀ start ∈ offsetsAfterLineFeeds offset text,
      offset < start ∧ start ≤ offset + byteLength text := by
  induction text generalizing offset with
  | nil => exact List.forall_mem_nil _
  | cons character text ih =>
      intro start member
      have positive := character.utf8Size_pos
      rw [offsetsAfterLineFeeds] at member
      rw [byteLength_cons]
      split at member
      · rename_i isFeed
        subst isFeed
        have size : '\n'.utf8Size = 1 := rfl
        rcases List.mem_cons.mp member with rfl | later
        · omega
        · have := ih _ start later
          omega
      · have := ih _ start member
        omega

theorem offsetsAfterLineFeeds_pairwise (offset : Nat) (text : List Char) :
    (offsetsAfterLineFeeds offset text).Pairwise (· < ·) := by
  induction text generalizing offset with
  | nil => exact .nil
  | cons character text ih =>
      rw [offsetsAfterLineFeeds]
      split
      · refine .cons (fun start member => ?_) (ih _)
        exact (offsetsAfterLineFeeds_bounds _ _ start member).1
      · exact ih _

theorem length_offsetsAfterLineFeeds (offset : Nat) (text : List Char) :
    (offsetsAfterLineFeeds offset text).length = text.count '\n' := by
  induction text generalizing offset with
  | nil => rfl
  | cons character text ih =>
      rw [offsetsAfterLineFeeds, List.count_cons]
      split
      · rename_i isFeed
        simp [isFeed, ih]
      · rename_i notFeed
        simp [notFeed, ih]

/-- All line feeds of a text are in front of any offset behind it. -/
theorem countP_offsetsAfterLineFeeds (behind : byteLength text ≤ stop) :
    (offsetsAfterLineFeeds 0 text).countP (· ≤ stop) = text.count '\n' := by
  rw [← length_offsetsAfterLineFeeds 0 text, List.countP_eq_length]
  intro start member
  have := offsetsAfterLineFeeds_bounds 0 text start member
  exact decide_eq_true (by omega)

theorem charactersWithin_append (first second : List Char) :
    charactersWithin start stop offset (first ++ second) =
      charactersWithin start stop offset first +
        charactersWithin start stop (offset + byteLength first) second := by
  induction first generalizing offset with
  | nil => simp [charactersWithin]
  | cons character first ih =>
      simp only [List.cons_append, charactersWithin, ih, byteLength_cons, Nat.add_assoc]

theorem charactersWithin_add (start stop offset distance : Nat) (text : List Char) :
    charactersWithin (start + distance) (stop + distance) (offset + distance) text =
      charactersWithin start stop offset text := by
  induction text generalizing offset with
  | nil => rfl
  | cons character text ih =>
      rw [charactersWithin, charactersWithin, Nat.add_right_comm offset distance, ih]
      simp only [Nat.add_le_add_iff_right, Nat.add_lt_add_iff_right]

/-- No character of a text lies behind its end. -/
theorem charactersWithin_of_le (behind : offset + byteLength text ≤ start) :
    charactersWithin start stop offset text = 0 := by
  induction text generalizing offset with
  | nil => rfl
  | cons character text ih =>
      have positive := character.utf8Size_pos
      rw [byteLength_cons] at behind
      rw [charactersWithin, if_neg (by omega), ih (by omega)]

end Source

namespace LineMap

variable {lines : LineMap} {offset low high : Nat}

/-- Halving ends at the last line that does not start after an offset: of all lines, just those up
to it do not. -/
theorem startOf_le_iff_le_lineBetween
    (increasing : ∀ line other, line < other → other < lines.lineCount →
      lines.startOf line < lines.startOf other)
    (some : low < high) (within : high ≤ lines.lineCount) (started : lines.startOf low ≤ offset)
    (notYet : ∀ line, high ≤ line → line < lines.lineCount → offset < lines.startOf line) :
    lines.lineBetween offset low high < lines.lineCount ∧
      ∀ line < lines.lineCount,
        (lines.startOf line ≤ offset ↔ line ≤ lines.lineBetween offset low high) := by
  fun_induction LineMap.lineBetween lines offset low high with
  | case1 low high wide startedThere ih => exact ih (by omega) within startedThere notYet
  | case2 low high wide notStarted ih =>
      refine ih (by omega) (by omega) started fun line from_ isLine => ?_
      rcases Nat.lt_or_eq_of_le from_ with later | rfl
      · have := increasing _ line later isLine
        omega
      · exact Nat.lt_of_not_le notStarted
  | case3 low high narrow =>
      refine ⟨by omega, fun line isLine => ⟨fun startedThere => ?_, fun upTo => ?_⟩⟩
      · apply Nat.le_of_not_lt
        intro later
        have := notYet line (by omega) isLine
        omega
      · rcases Nat.lt_or_eq_of_le upTo with earlier | rfl
        · have := increasing line low earlier (by omega)
          omega
        · exact started

end LineMap

namespace Source

/-- Where the first line of a text starts: after the mark in front, if there is one. -/
def textStart (text : List Char) : Nat :=
  byteLength (splitMark text).1

/-- The offsets at which the lines of a text start. -/
def lineStarts (text : List Char) : List Nat :=
  textStart text :: offsetsAfterLineFeeds 0 text

theorem offsetsAfterLineFeeds_mark (offset : Nat) (text : List Char) :
    offsetsAfterLineFeeds offset (splitMark text).1 = [] := by
  cases text with
  | nil => rfl
  | cons character text =>
      rw [splitMark]
      split
      · rename_i isMark
        subst isMark
        rfl
      · rfl

theorem lineStarts_pairwise (text : List Char) : (lineStarts text).Pairwise (· < ·) := by
  refine .cons (fun start member => ?_) (offsetsAfterLineFeeds_pairwise 0 text)
  rw [← splitMark_append text, offsetsAfterLineFeeds_append, offsetsAfterLineFeeds_mark,
    List.nil_append, Nat.zero_add] at member
  exact (offsetsAfterLineFeeds_bounds _ _ start member).1

/-- The nearest offset to a given one that lies in a text and not in front of its first line. -/
def clampOffset (text : List Char) (offset : Nat) : Nat :=
  max (textStart text) (min offset (byteLength text))

theorem le_clampOffset (text : List Char) (offset : Nat) :
    textStart text ≤ clampOffset text offset :=
  Nat.le_max_left _ _

theorem textStart_le (text : List Char) : textStart text ≤ byteLength text := by
  have whole := congrArg byteLength (splitMark_append text)
  rw [byteLength_append] at whole
  rw [textStart]
  omega

theorem clampOffset_le (text : List Char) (offset : Nat) :
    clampOffset text offset ≤ byteLength text :=
  Nat.max_le.mpr ⟨textStart_le text, Nat.min_le_right _ _⟩

/-- How many lines in front of that of an offset are complete. -/
def linesBefore (text : List Char) (offset : Nat) : Nat :=
  (offsetsAfterLineFeeds 0 text).countP (· ≤ offset)

end Source

namespace LineMap

open Source

theorem startOf_ofSource (source : String) (line : Nat) :
    (ofSource source).startOf line = (lineStarts source.toList).getD line 0 := by
  simp [startOf, ofSource, lineStarts, textStart]

theorem lineCount_ofSource (source : String) :
    (ofSource source).lineCount = (lineStarts source.toList).length := by
  simp [lineCount, ofSource, lineStarts]

theorem clamp_ofSource (source : String) (offset : Nat) :
    (ofSource source).clamp offset = clampOffset source.toList offset :=
  rfl

/-- Halving finds the line that counting finds. -/
theorem lineBetween_ofSource (source : String) {offset : Nat}
    (inside : textStart source.toList ≤ offset) :
    (ofSource source).lineBetween offset 0 (ofSource source).lineCount =
      linesBefore source.toList offset := by
  have increasing : ∀ line other, line < other → other < (ofSource source).lineCount →
      (ofSource source).startOf line < (ofSource source).startOf other := by
    intro line other earlier isLine
    rw [lineCount_ofSource] at isLine
    rw [startOf_ofSource, startOf_ofSource, List.getD_eq_getElem _ _ (by omega),
      List.getD_eq_getElem _ _ isLine]
    exact List.pairwise_iff_getElem.mp (lineStarts_pairwise _) line other _ isLine earlier
  have some : 0 < (ofSource source).lineCount := by
    rw [lineCount_ofSource]
    exact Nat.succ_pos _
  obtain ⟨isLine, started⟩ := startOf_le_iff_le_lineBetween increasing some Nat.le.refl inside
    fun line from_ isLine => absurd isLine (Nat.not_lt_of_le from_)
  generalize (ofSource source).lineBetween offset 0 (ofSource source).lineCount = found
    at isLine started
  simp only [lineCount_ofSource, startOf_ofSource] at isLine started
  have passed : (lineStarts source.toList).countP (· ≤ offset) = found + 1 := by
    apply countP_eq_of_forall_iff isLine
    intro line isStart
    have startedThere := started line isStart
    rw [List.getD_eq_getElem _ _ isStart] at startedThere
    rw [decide_eq_true_iff, startedThere, Nat.lt_succ_iff]
  rw [lineStarts, List.countP_cons_of_pos (by exact decide_eq_true inside)] at passed
  exact (Nat.succ.inj passed).symm

/-- The position of an offset by counting, first the line feeds in front of it and then the
characters between the start of its line and itself. -/
theorem position_ofSource (source : String) (offset : Nat) :
    let inside := clampOffset source.toList offset
    let line := linesBefore source.toList inside
    (ofSource source).position offset =
      ⟨line + 1, charactersWithin ((lineStarts source.toList).getD line 0) inside 0
        source.toList + 1⟩ := by
  intro inside line
  have sameLine : (ofSource source).lineBetween inside 0 (ofSource source).lineCount = line :=
    lineBetween_ofSource source (le_clampOffset source.toList offset)
  rw [position, clamp_ofSource]
  simp only [inside] at sameLine
  simp only [sameLine, startOf_ofSource]
  rfl

end LineMap

namespace Source

variable {first second : List Char}

theorem textStart_of_head?_ne (noMark : second.head? ≠ some byteOrderMark) :
    textStart second = 0 := by
  rw [textStart, splitMark_of_head?_ne noMark, byteLength_nil]

theorem offsetsAfterLineFeeds_append_line (first second : List Char) :
    offsetsAfterLineFeeds 0 (first ++ '\n' :: second) =
      offsetsAfterLineFeeds 0 first ++ (byteLength first + 1) ::
        (offsetsAfterLineFeeds 0 second).map (· + (byteLength first + 1)) := by
  rw [offsetsAfterLineFeeds_append, offsetsAfterLineFeeds, if_pos rfl,
    ← offsetsAfterLineFeeds_add, Nat.zero_add, Nat.zero_add]

theorem linesBefore_append_line (first second : List Char) (offset : Nat) :
    linesBefore (first ++ '\n' :: second) (offset + (byteLength first + 1)) =
      linesBefore second offset + (first.count '\n' + 1) := by
  have inFirst : (offsetsAfterLineFeeds 0 first).countP
      (· ≤ offset + (byteLength first + 1)) = first.count '\n' :=
    countP_offsetsAfterLineFeeds (by omega)
  have inSecond : ((offsetsAfterLineFeeds 0 second).map (· + (byteLength first + 1))).countP
      (· ≤ offset + (byteLength first + 1)) = linesBefore second offset := by
    rw [List.countP_map, linesBefore]
    refine List.countP_congr fun start _ => ?_
    simp
  have atFeed : decide (byteLength first + 1 ≤ offset + (byteLength first + 1)) = true :=
    decide_eq_true (Nat.le_add_left _ _)
  rw [linesBefore, offsetsAfterLineFeeds_append_line, List.countP_append,
    List.countP_cons_of_pos (by exact atFeed), inFirst, inSecond]
  omega

theorem linesBefore_lt_length_lineStarts (text : List Char) (offset : Nat) :
    linesBefore text offset < (lineStarts text).length :=
  Nat.lt_succ_of_le List.countP_le_length

section

variable (noMark : second.head? ≠ some byteOrderMark)

include noMark

/-- The lines behind a complete line start where those of the text there do, as far behind it. -/
theorem lineStarts_append_line :
    lineStarts (first ++ '\n' :: second) =
      lineStarts first ++ (lineStarts second).map (· + (byteLength first + 1)) := by
  rw [lineStarts, lineStarts, lineStarts, textStart, splitMark_append_line,
    offsetsAfterLineFeeds_append_line, List.map_cons, textStart_of_head?_ne noMark, Nat.zero_add]
  rfl

theorem clampOffset_append_line (offset : Nat) :
    clampOffset (first ++ '\n' :: second) (offset + (byteLength first + 1)) =
      clampOffset second offset + (byteLength first + 1) := by
  have size : '\n'.utf8Size = 1 := rfl
  have sameStart : textStart (first ++ '\n' :: second) = textStart first := by
    rw [textStart, splitMark_append_line, textStart]
  have early := textStart_le first
  rw [clampOffset, clampOffset, sameStart, textStart_of_head?_ne noMark, byteLength_append,
    byteLength_cons, size]
  omega

theorem getD_lineStarts_append_line {line : Nat} (isLine : line < (lineStarts second).length) :
    (lineStarts (first ++ '\n' :: second)).getD (line + (first.count '\n' + 1)) 0 =
      (lineStarts second).getD line 0 + (byteLength first + 1) := by
  have length : (lineStarts first).length = first.count '\n' + 1 := by
    rw [lineStarts, List.length_cons, length_offsetsAfterLineFeeds]
  rw [lineStarts_append_line noMark, List.getD_append_right _ _ _ _ (by omega), length,
    Nat.add_sub_cancel, List.getD_eq_getElem _ _ (by simpa using isLine), List.getElem_map,
    List.getD_eq_getElem _ _ isLine]

end

theorem charactersWithin_append_line (start stop : Nat) (first second : List Char) :
    charactersWithin (start + (byteLength first + 1)) (stop + (byteLength first + 1)) 0
      (first ++ '\n' :: second) = charactersWithin start stop 0 second := by
  have size : '\n'.utf8Size = 1 := rfl
  have behind : 0 + byteLength (first ++ ['\n']) ≤ start + (byteLength first + 1) := by
    simp [size]
  have length : 0 + byteLength (first ++ ['\n']) = 0 + (byteLength first + 1) := by
    simp [size]
  rw [List.append_cons, charactersWithin_append, charactersWithin_of_le behind, Nat.zero_add,
    length, charactersWithin_add]

end Source

/-- An offset behind a complete line has the column that it has without that line, and its line is
further on by the number of lines in front. -/
theorem LineMap.position_append_line {first second : String}
    (noMark : second.toList.head? ≠ some Source.byteOrderMark) (offset : Nat) :
    (ofSource (first ++ "\n" ++ second)).position
        (offset + (Source.byteLength first.toList + 1)) =
      ⟨((ofSource second).position offset).line + (first.toList.count '\n' + 1),
        ((ofSource second).position offset).column⟩ := by
  have characters : (first ++ "\n" ++ second).toList = first.toList ++ '\n' :: second.toList := by
    simp
  rw [position_ofSource, position_ofSource, characters]
  simp only [Source.clampOffset_append_line noMark, Source.linesBefore_append_line,
    Source.getD_lineStarts_append_line noMark (Source.linesBefore_lt_length_lineStarts _ _),
    Source.charactersWithin_append_line, Nat.add_right_comm]

end JassExpr
