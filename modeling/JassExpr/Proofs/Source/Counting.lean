import JassExpr.Proofs.Source.LineMap
import JassExpr.Proofs.Text.Bytewise

/-!
# Positions by counting

The line of an offset is known from the line feeds in front of it, and its column from the
characters that begin in that line in front of it. Finding a position on the bytes of a source, with
a search in the table of lines, comes to the same, and none of its steps can fail: the bounds
between which the offset is moved are in order, the search answers with a line of the table, and
from there to the offset there is a slice of the source.
-/

namespace JassExpr

/-! ## Searching a table -/

/-- What a search for a number in a table comes to: the index of the number, or the index at which
it would have to be put in. -/
inductive TableSearch where
  | found (index : Nat)
  | missing (index : Nat)
deriving DecidableEq

namespace TableSearch

/-- Searches a table for a number, from the index `low` on and before the index `high`. The part
that is searched is halved until it is empty. -/
def between (table : Array Nat) (wanted low high : Nat) (within : high ≤ table.size) :
    TableSearch :=
  if some : low < high then
    have isIndex : (low + high) / 2 < table.size := by omega
    if table[(low + high) / 2] = wanted then
      .found ((low + high) / 2)
    else if table[(low + high) / 2] < wanted then
      between table wanted ((low + high) / 2 + 1) high within
    else
      between table wanted low ((low + high) / 2) (Nat.le_of_lt isIndex)
  else
    .missing low
termination_by high - low

/-- The number of indices up to the answer at which there is no larger number. -/
def passed : TableSearch → Nat
  | found index => index + 1
  | missing index => index

/-- The last index at which there is no larger number, unless there is no such index. -/
def last? : TableSearch → Option Nat
  | found index => some index
  | missing 0 => none
  | missing (index + 1) => some index

theorem last?_of_passed {answer : TableSearch} {index : Nat} (passed : answer.passed = index + 1) :
    answer.last? = some index := by
  cases answer with
  | found other =>
      obtain rfl : other = index := Nat.succ.inj passed
      rfl
  | missing other =>
      obtain rfl : other = index + 1 := passed
      rfl

variable {table : Array Nat} {wanted low high : Nat}

theorem getElem_lt_getElem (increasing : table.toList.Pairwise (· < ·)) {first second : Nat}
    (later : first < second) (isIndex : second < table.size) : table[first] < table[second] :=
  List.pairwise_iff_getElem.mp increasing first second (by simp; omega) (by simpa) later

/-- In an increasing table, the search passes just the numbers that do not exceed the wanted one. -/
theorem le_iff_lt_passed_between (increasing : table.toList.Pairwise (· < ·))
    (within : high ≤ table.size) (inOrder : low ≤ high)
    (before : ∀ index, (isIndex : index < table.size) → index < low → table[index] ≤ wanted)
    (behind : ∀ index, (isIndex : index < table.size) → high ≤ index → wanted < table[index]) :
    (between table wanted low high within).passed ≤ table.size ∧
      ∀ index, (isIndex : index < table.size) →
        (table[index] ≤ wanted ↔ index < (between table wanted low high within).passed) := by
  fun_induction between table wanted low high within with
  | case1 low high within some isMiddle same =>
      refine ⟨isMiddle, fun index isIndex => ?_⟩
      rw [passed]
      rcases Nat.lt_trichotomy index ((low + high) / 2) with first | rfl | second
      · have := getElem_lt_getElem increasing first isMiddle
        omega
      · omega
      · have := getElem_lt_getElem increasing second isIndex
        omega
  | case2 low high within some isMiddle notSame less ih =>
      refine ih (by omega) (fun index isIndex first => ?_) behind
      rcases Nat.lt_or_eq_of_le (Nat.le_of_lt_succ first) with first | rfl
      · have := getElem_lt_getElem increasing first isMiddle
        omega
      · exact Nat.le_of_lt less
  | case3 low high within some isMiddle notSame notLess ih =>
      refine ih (by omega) before fun index isIndex notFirst => ?_
      rcases Nat.lt_or_eq_of_le notFirst with second | rfl
      · have := getElem_lt_getElem increasing second isIndex
        omega
      · omega
  | case4 low high within none =>
      rw [passed]
      refine ⟨by omega, fun index isIndex => ⟨fun notLarger => ?_, before index isIndex⟩⟩
      apply Nat.lt_of_not_le
      intro notFirst
      have := behind index isIndex (by omega)
      omega

/-- Searching all of an increasing table that begins with no larger number than the wanted one
finds the last such number. -/
theorem last?_between (increasing : table.toList.Pairwise (· < ·)) {count : Nat}
    (counted : table.toList.countP (· ≤ wanted) = count + 1) :
    (between table wanted 0 table.size Nat.le.refl).last? = some count := by
  have noneBefore : ∀ index, (isIndex : index < table.size) → index < 0 → table[index] ≤ wanted :=
    fun index _ before => absurd before (Nat.not_lt_zero index)
  have noneBehind : ∀ index, (isIndex : index < table.size) → table.size ≤ index →
      wanted < table[index] :=
    fun index isIndex behind => absurd isIndex (Nat.not_lt_of_le behind)
  obtain ⟨within, passed⟩ := le_iff_lt_passed_between increasing Nat.le.refl (Nat.zero_le _)
    noneBefore noneBehind
  apply last?_of_passed
  rw [← counted]
  symm
  apply countP_eq_of_forall_iff (by simpa using within)
  intro index isIndex
  simpa using passed index (by simpa using isIndex)

end TableSearch

namespace Source

/-! ## Line feeds -/

theorem bytes_lineFeed_idxsOf {character : Char} (notFeed : character ≠ '\n') (offset : Nat) :
    (String.utf8EncodeChar character).idxsOf 0x0a offset = [] := by
  rw [List.idxsOf_eq_nil_iff]
  intro byte member
  rw [beq_eq_false_iff_ne]
  rintro rfl
  exact Text.lineFeed_notMem_utf8EncodeChar notFeed member

/-- The offsets just after the line feeds of a text are found among its bytes. -/
theorem offsetsAfterLineFeeds_eq (offset : Nat) (text : List Char) :
    offsetsAfterLineFeeds offset text =
      ((bytes text).idxsOf 0x0a offset).map (· + 1) := by
  induction text generalizing offset with
  | nil => rfl
  | cons character text ih =>
      rw [offsetsAfterLineFeeds, bytes_cons, List.idxsOf_append, String.length_utf8EncodeChar]
      split
      · rename_i isFeed
        subst isFeed
        rw [ih]
        rfl
      · rename_i notFeed
        rw [ih, bytes_lineFeed_idxsOf notFeed, List.nil_append]

/-- The offset of the line feed before which there are as many others. -/
theorem linesBefore_eq {text : List Char} {stop : Nat} (inside : stop ≤ byteLength text) :
    linesBefore text stop = ((bytes text).take stop).count 0x0a := by
  have length : ((bytes text).take stop).length = stop := by
    rw [List.length_take, length_bytes, Nat.min_eq_left inside]
  have whole : (bytes text).idxsOf 0x0a 0 = ((bytes text).take stop).idxsOf 0x0a 0 ++
      ((bytes text).drop stop).idxsOf 0x0a stop := by
    conv_lhs => rw [← List.take_append_drop stop (bytes text), List.idxsOf_append, length]
    rw [Nat.zero_add]
  have inFront : (((bytes text).take stop).idxsOf 0x0a 0).countP (· + 1 ≤ stop) =
      ((bytes text).take stop).count 0x0a := by
    rw [← List.length_idxsOf, List.countP_eq_length]
    intro feed member
    have := List.lt_add_of_mem_idxsOf feed member
    rw [length] at this
    exact decide_eq_true this
  have behind : (((bytes text).drop stop).idxsOf 0x0a stop).countP (· + 1 ≤ stop) = 0 := by
    rw [List.countP_eq_zero]
    intro feed member
    have := List.ge_of_mem_idxsOf feed member
    simpa using Nat.lt_succ_of_le this
  rw [linesBefore, offsetsAfterLineFeeds_eq, List.countP_map, whole, List.countP_append]
  exact (congrArg₂ (· + ·) inFront behind).trans (Nat.add_zero _)

/-- Where the line of an offset starts: behind the last line feed in front of it, or where the
first line does. -/
def lineStartBefore (first : Nat) (front : List UInt8) : Nat :=
  match (front.idxsOf 0x0a).getLast? with
  | none => first
  | some feed => feed + 1

theorem getElem?_lineStarts (text : List Char) (stop : Nat) :
    (lineStarts text)[((bytes text).take stop).count 0x0a]? =
      some (lineStartBefore (textStart text) ((bytes text).take stop)) := by
  have within : ((bytes text).take stop).count 0x0a ≤ ((bytes text).idxsOf 0x0a).length := by
    rw [List.length_idxsOf]
    exact (List.take_sublist stop _).count_le _
  rw [lineStartBefore, List.idxsOf_take, lineStarts, offsetsAfterLineFeeds_eq]
  cases counted : ((bytes text).take stop).count 0x0a with
  | zero => rfl
  | succ count =>
      rw [counted] at within
      rw [List.getElem?_cons_succ, List.getElem?_map, List.getLast?_take,
        if_neg (Nat.succ_ne_zero _), Nat.add_sub_cancel, List.getElem?_eq_getElem within]
      rfl

/-! ## First bytes of characters -/

/-- A byte begins a character unless, of its two highest bits, just the highest is set. -/
def beginsCharacter (byte : UInt8) : Bool :=
  byte &&& 0xc0 != 0x80

theorem beginsCharacter_ofNat (value : Nat) :
    beginsCharacter (UInt8.ofNat value) = decide (value % 256 < 128 ∨ 192 ≤ value % 256) := by
  have each : ∀ code < 256,
      beginsCharacter (UInt8.ofNat code) = decide (code < 128 ∨ 192 ≤ code) := by
    decide +kernel
  rw [← each (value % 256) (Nat.mod_lt _ (by decide)), UInt8.ofNat_mod_size]

/-- Of the bytes of a character, the first one begins it, and no other begins one. -/
theorem exists_beginsCharacter (character : Char) :
    ∃ first others, String.utf8EncodeChar character = first :: others ∧
      beginsCharacter first = true ∧ ∀ byte ∈ others, beginsCharacter byte = false := by
  simp only [String.utf8EncodeChar]
  generalize character.val.toNat = code
  split_ifs <;> refine ⟨_, _, rfl, ?_, ?_⟩ <;>
    simp only [List.forall_mem_cons, List.not_mem_nil, false_imp_iff, implies_true, and_true,
      beginsCharacter_ofNat, decide_eq_true_eq, decide_eq_false_iff_not] <;>
    omega

/-- Between two offsets, the bytes of a character have its first one or none. -/
theorem countP_beginsCharacter_of_char (start stop : Nat) (character : Char) :
    (((String.utf8EncodeChar character).take stop).drop start).countP beginsCharacter =
      if start ≤ 0 ∧ 0 < stop then 1 else 0 := by
  obtain ⟨first, others, encoded, begins, continues⟩ := exists_beginsCharacter character
  have noneOf : ∀ {bytes : List UInt8},
      bytes.Sublist others → bytes.countP beginsCharacter = 0 := by
    intro bytes within
    rw [List.countP_eq_zero]
    intro byte member
    simp [continues byte (within.subset member)]
  rw [encoded]
  cases stop with
  | zero => simp
  | succ stop =>
      rw [List.take_succ_cons]
      cases start with
      | zero =>
          rw [List.drop_zero, List.countP_cons_of_pos begins,
            noneOf (List.take_sublist stop others), if_pos (by omega)]
      | succ start =>
          rw [List.drop_succ_cons, if_neg (by omega)]
          exact noneOf ((List.drop_sublist start _).trans (List.take_sublist stop others))

/-- In a text that begins further on, offsets are that much closer to its beginning. -/
theorem charactersWithin_sub (start stop offset distance : Nat) (text : List Char) :
    charactersWithin start stop (offset + distance) text =
      charactersWithin (start - distance) (stop - distance) offset text := by
  induction text generalizing offset with
  | nil => rfl
  | cons character text ih =>
      have same : start ≤ offset + distance ∧ offset + distance < stop ↔
          start - distance ≤ offset ∧ offset < stop - distance := by omega
      rw [charactersWithin, charactersWithin, Nat.add_right_comm, ih]
      simp only [same]

/-- The number of characters that begin between two offsets, counted by their first bytes. -/
theorem countP_beginsCharacter (start stop : Nat) (text : List Char) :
    (((bytes text).take stop).drop start).countP beginsCharacter =
      charactersWithin start stop 0 text := by
  induction text generalizing start stop with
  | nil => simp [bytes, charactersWithin]
  | cons character text ih =>
      have others : ((bytes text).take (stop - character.utf8Size)).drop
          (start - min stop character.utf8Size) =
            ((bytes text).take (stop - character.utf8Size)).drop (start - character.utf8Size) := by
        rcases Nat.le_total character.utf8Size stop with wide | narrow
        · rw [Nat.min_eq_right wide]
        · rw [Nat.sub_eq_zero_of_le narrow, List.take_zero, List.drop_nil, List.drop_nil]
      rw [bytes_cons, List.take_append, List.drop_append, List.countP_append, List.length_take,
        String.length_utf8EncodeChar, others, ih, countP_beginsCharacter_of_char, charactersWithin,
        charactersWithin_sub]

/-- The offsets at which the characters of a text begin. -/
def characterPlaces (text : List Char) : List Nat :=
  (List.range text.length).map fun index => byteLength (text.take index)

theorem characterPlaces_cons (character : Char) (text : List Char) :
    characterPlaces (character :: text) =
      0 :: (characterPlaces text).map (character.utf8Size + ·) := by
  rw [characterPlaces, characterPlaces, List.length_cons, List.range_succ_eq_map, List.map_cons,
    List.map_map, List.map_map]
  rfl

/-- The number of characters that begin between two offsets, counted by their places. -/
theorem countP_characterPlaces (start stop : Nat) (text : List Char) :
    (characterPlaces text).countP (fun place => start ≤ place ∧ place < stop) =
      charactersWithin start stop 0 text := by
  induction text generalizing start stop with
  | nil => rfl
  | cons character text ih =>
      have others : ((characterPlaces text).map (character.utf8Size + ·)).countP
          (fun place => start ≤ place ∧ place < stop) =
            charactersWithin (start - character.utf8Size) (stop - character.utf8Size) 0 text := by
        rw [← ih, List.countP_map]
        refine List.countP_congr fun place _ => ?_
        simp only [Function.comp_apply, decide_eq_true_eq]
        omega
      rw [characterPlaces_cons, List.countP_cons, others, charactersWithin, charactersWithin_sub,
        Nat.add_comm]
      simp only [decide_eq_true_eq]

/-! ## Positions -/

/-- Where the first line starts: behind the three bytes of a mark in front, if there is one. -/
def firstLineStart (text : List Char) : Nat :=
  if text.head? = some byteOrderMark then 3 else 0

theorem firstLineStart_eq (text : List Char) : firstLineStart text = textStart text := by
  cases text with
  | nil => rfl
  | cons character text =>
      by_cases isMark : character = byteOrderMark
      · subst isMark
        rfl
      · simp [firstLineStart, textStart, splitMark, isMark]

/-- The position of an offset by counting. An offset outside of the text is moved to its nearest
end. The line comes from the line feeds in front of the offset, the column from the characters that
begin in front of it and not in front of its line. -/
def countedPosition (source : String) (offset : Nat) : Position :=
  let first := firstLineStart source.toList
  let inside := max first (min offset source.utf8ByteSize)
  let front := (bytes source.toList).take inside
  { line := front.count 0x0a + 1
    column := (characterPlaces source.toList).countP
      (fun place => lineStartBefore first front ≤ place ∧ place < inside) + 1 }

/-- The nearest number to a given one between two bounds, if these are in order. -/
def clampBetween? (low high value : Nat) : Option Nat :=
  if low ≤ high then some (max low (min value high)) else none

/-- The bytes between two offsets, if these are in order and not outside. -/
def sliceBytes? (start stop : Nat) (bytes : List UInt8) : Option (List UInt8) :=
  if start ≤ stop ∧ stop ≤ bytes.length then some ((bytes.take stop).drop start) else none

/-- The table of the offsets at which lines start. -/
def startTable (source : String) : Array Nat :=
  (firstLineStart source.toList ::
    ((bytes source.toList).idxsOf 0x0a).map (· + 1)).toArray

/-- The position of an offset, found on the bytes of a source in steps that may fail. The offset is
moved between two bounds, its line is searched in the table of lines, and its column is counted in
a slice. -/
def positionByBytes? (source : String) (offset : Nat) : Option Position := do
  let table := startTable source
  let first ← table[0]?
  let inside ← clampBetween? first (bytes source.toList).length offset
  let line ← (TableSearch.between table inside 0 table.size Nat.le.refl).last?
  let start ← table[line]?
  let before ← sliceBytes? start inside (bytes source.toList)
  return ⟨line + 1, before.countP beginsCharacter + 1⟩

theorem toList_startTable (source : String) :
    (startTable source).toList = lineStarts source.toList := by
  rw [startTable, List.toList_toArray, firstLineStart_eq, lineStarts, offsetsAfterLineFeeds_eq]

theorem getElem?_startTable (source : String) (line : Nat) :
    (startTable source)[line]? = (lineStarts source.toList)[line]? := by
  rw [← toList_startTable, Array.getElem?_toList]

/-- No line that is found for an offset starts behind it. -/
theorem lineStartBefore_le {first stop : Nat} (text : List Char) (inside : first ≤ stop) :
    lineStartBefore first ((bytes text).take stop) ≤ stop := by
  rw [lineStartBefore]
  split
  · exact inside
  · rename_i feed isLast
    have := List.lt_add_of_mem_idxsOf feed (List.mem_of_getLast? isLast)
    rw [List.length_take] at this
    omega

/-- In the table of lines, the search finds the line of an offset that is not outside. -/
theorem last?_between_startTable {source : String} {stop : Nat}
    (notBefore : textStart source.toList ≤ stop) (inside : stop ≤ byteLength source.toList) :
    (TableSearch.between (startTable source) stop 0 (startTable source).size Nat.le.refl).last? =
      some (((bytes source.toList).take stop).count 0x0a) := by
  have increasing : (startTable source).toList.Pairwise (· < ·) := by
    rw [toList_startTable]
    exact lineStarts_pairwise _
  apply TableSearch.last?_between increasing
  rw [toList_startTable, lineStarts, List.countP_cons_of_pos (by exact decide_eq_true notBefore),
    ← linesBefore_eq inside]
  rfl

theorem countedPosition_eq (source : String) (offset : Nat) :
    let stop := clampOffset source.toList offset
    let front := (bytes source.toList).take stop
    countedPosition source offset = ⟨front.count 0x0a + 1,
      charactersWithin (lineStartBefore (textStart source.toList) front) stop 0
        source.toList + 1⟩ := by
  intro stop front
  rw [countedPosition, firstLineStart_eq, utf8ByteSize_eq, countP_characterPlaces]
  rfl

theorem position_ofSource_eq_countedPosition (source : String) (offset : Nat) :
    (LineMap.ofSource source).position offset = countedPosition source offset := by
  rw [LineMap.position_ofSource, linesBefore_eq (clampOffset_le source.toList offset),
    List.getD_eq_getElem?_getD, getElem?_lineStarts, Option.getD_some, countedPosition_eq]

/-- None of the steps in which a position is found on bytes fails. -/
theorem positionByBytes?_eq (source : String) (offset : Nat) :
    positionByBytes? source offset = some (countedPosition source offset) := by
  have notBefore := le_clampOffset source.toList offset
  have inside := clampOffset_le source.toList offset
  have first : (startTable source)[0]? = some (textStart source.toList) := by
    rw [getElem?_startTable]
    rfl
  have clamped : clampBetween? (textStart source.toList) (bytes source.toList).length offset =
      some (clampOffset source.toList offset) := by
    rw [length_bytes, clampBetween?, if_pos (textStart_le _)]
    rfl
  rw [countedPosition_eq]
  generalize clampOffset source.toList offset = stop at notBefore inside clamped ⊢
  have found := last?_between_startTable notBefore inside
  have start := getElem?_lineStarts source.toList stop
  rw [← getElem?_startTable] at start
  have sliced : sliceBytes? (lineStartBefore (textStart source.toList)
      ((bytes source.toList).take stop)) stop (bytes source.toList) = some _ :=
    if_pos ⟨lineStartBefore_le _ notBefore, inside.trans_eq (length_bytes _).symm⟩
  rw [positionByBytes?]
  simp only [first, clamped, found, start, sliced, Option.bind_eq_bind, Option.bind_some,
    Option.pure_def, countP_beginsCharacter]

end Source

/-- The position of any offset of any source is the one that counting gives. It is also found on
the bytes of the source, and no step on the way fails. -/
theorem LineMap.position_eq_countedPosition (source : String) (offset : Nat) :
    Source.positionByBytes? source offset = some ((ofSource source).position offset) ∧
      (ofSource source).position offset = Source.countedPosition source offset := by
  have counted := Source.position_ofSource_eq_countedPosition source offset
  refine ⟨?_, counted⟩
  rw [Source.positionByBytes?_eq, counted]

/-- Behind a mark, at the end of a line, and inside of a letter of two bytes in the next line. -/
example : Source.countedPosition "\uFEFFa\né" 4 = ⟨1, 2⟩ ∧
    Source.countedPosition "\uFEFFa\né" 6 = ⟨2, 2⟩ := by
  decide +kernel

end JassExpr
