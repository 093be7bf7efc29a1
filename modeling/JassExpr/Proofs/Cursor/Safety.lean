import JassExpr.Proofs.Cursor.Turns

/-!
# The cursor stays on boundaries

Each turn begins on a boundary between characters and ends on a later one, or with an error. All
slices taken on the way are slices of the source, so scanning never stops short, and it comes to an
end: with the tokens of the source, or with its lexical error.
-/

namespace JassExpr

namespace Source

/-- An offset lies between two characters of a source, or at one of its ends. -/
def IsBoundary (source : String) (offset : Nat) : Prop :=
  (splitAt? offset source.toList).isSome

variable {source : String}

theorem isBoundary_of_append {before after : List Char} (whole : before ++ after = source.toList) :
    IsBoundary source (byteLength before) := by
  rw [IsBoundary, splitAt?_eq_some_iff.mpr ⟨whole, rfl⟩]
  rfl

/-- A span with a slice has its bounds on boundaries of the source, and in order. -/
theorem bounds_of_slice? {span : Span} (sliced : (span.slice? source).isSome) :
    span.start ≤ span.stop ∧ IsBoundary source span.start ∧ IsBoundary source span.stop ∧
      span.stop ≤ source.utf8ByteSize := by
  obtain ⟨start, stop⟩ := span
  rw [Span.slice?, Option.isSome_map, Option.isSome_iff_exists] at sliced
  obtain ⟨middle, sliced⟩ := sliced
  obtain ⟨before, after, whole, rfl, rfl⟩ := slice?_eq_some_iff.mp sliced
  have wholeStart : before ++ (middle ++ after) = source.toList := by
    rw [← whole, List.append_assoc]
  refine ⟨?_, isBoundary_of_append wholeStart, isBoundary_of_append whole, ?_⟩
  · rw [byteLength_append]
    exact Nat.le_add_right _ _
  · rw [utf8ByteSize_eq, ← whole, byteLength_append (before ++ middle)]
    exact Nat.le_add_right _ _

end Source

namespace LineMap

open Source

/-- The bounds between which an offset is clamped are in order. -/
theorem startOf_zero_le (source : String) : (ofSource source).startOf 0 ≤ source.utf8ByteSize := by
  rw [startOf_ofSource, utf8ByteSize_eq]
  exact textStart_le source.toList

/-- The line that is found for an offset is one of the lines. -/
theorem lineBetween_lt (source : String) (offset : Nat) :
    (ofSource source).lineBetween ((ofSource source).clamp offset) 0 (ofSource source).lineCount <
      (ofSource source).lineCount := by
  have inside : textStart source.toList ≤ (ofSource source).clamp offset := by
    rw [clamp_ofSource]
    exact Nat.le_max_left _ _
  rw [lineBetween_ofSource source inside, lineCount_ofSource]
  exact linesBefore_lt_length_lineStarts _ _

end LineMap

namespace Cursor

open Source

variable {source : String} {before text : List Char}

/-- What is the case whenever a turn begins: the cursor is on a boundary, all slices that the turn
takes are there, and it ends further on unless it has found an error or the end. -/
structure SafeAt (source : String) (cursor : Nat) : Prop where
  boundary : IsBoundary source cursor
  inside : cursor ≤ source.utf8ByteSize
  slices : ∀ span ∈ (turn source cursor).spans,
    span.start ≤ span.stop ∧ IsBoundary source span.start ∧ IsBoundary source span.stop ∧
      span.stop ≤ source.utf8ByteSize
  advances : ∀ token? next, (turn source cursor).result = .onwards token? next → cursor < next
  finishes : (turn source cursor).result = .finished → cursor = source.utf8ByteSize

/-- Where a turn moves on, it has passed some characters. -/
theorem exists_passed (whole : source.toList = before ++ text)
    (marked : (splitMark source.toList).1 <+: before) {token? : Option Token} {next : Nat}
    (moves : (turn source (byteLength before)).result = .onwards token? next) :
    ∃ passed rest, text = passed ++ rest ∧ passed ≠ [] ∧ next = byteLength (before ++ passed) := by
  cases text with
  | nil =>
      rw [List.append_nil] at whole
      rw [turn_finished whole] at moves
      cases moves
  | cons first rest =>
      by_cases blank : isBlank first = true
      · rw [turn_blank whole blank] at moves
        cases moves
        refine ⟨[first], rest, rfl, List.cons_ne_nil _ _, ?_⟩
        rw [byteLength_append, byteLength_cons, utf8Size_blank blank]
        rfl
      · rw [(gives_turn whole marked (by simpa using blank)).result_eq] at moves
        cases found : Cut.front first rest with
        | error fault =>
            rw [found] at moves
            cases moves
        | ok cut =>
            rw [found] at moves
            cases moves
            obtain ⟨parts, taken⟩ := Cut.front_consumes found
            exact ⟨cut.written, cut.rest, parts.symm, taken, (byteLength_append _ _).symm⟩

theorem safeAt (whole : source.toList = before ++ text)
    (marked : (splitMark source.toList).1 <+: before) : SafeAt source (byteLength before) where
  boundary := isBoundary_of_append whole.symm
  inside := by
    rw [utf8ByteSize_eq, whole, byteLength_append]
    omega
  slices := by
    intro span member
    apply bounds_of_slice?
    cases text with
    | nil =>
        rw [List.append_nil] at whole
        rw [turn_finished whole] at member
        cases member
    | cons first rest =>
        by_cases blank : isBlank first = true
        · rw [turn_blank whole blank] at member
          cases member
        · exact (gives_turn whole marked (by simpa using blank)).isSome span member
  advances := by
    intro token? next moves
    obtain ⟨passed, rest, rfl, nonempty, rfl⟩ := exists_passed whole marked moves
    have positive : byteLength passed ≠ 0 := fun empty =>
      nonempty (byteLength_eq_zero_iff.mp empty)
    rw [byteLength_append]
    omega
  finishes := by
    intro ends
    cases text with
    | nil => rw [utf8ByteSize_eq, whole, List.append_nil]
    | cons first rest =>
        by_cases blank : isBlank first = true
        · rw [turn_blank whole blank] at ends
          cases ends
        · rw [(gives_turn whole marked (by simpa using blank)).result_eq] at ends
          cases found : Cut.front first rest <;> rw [found] at ends <;> cases ends

/-- Wherever the cursor comes to, it is on a boundary behind the mark in front. -/
theorem Reaches.exists_append {cursor : Nat} (reached : Reaches source cursor) :
    ∃ before text, source.toList = before ++ text ∧ (splitMark source.toList).1 <+: before ∧
      cursor = byteLength before := by
  induction reached with
  | start =>
      exact ⟨_, _, (splitMark_append source.toList).symm, List.prefix_rfl, rfl⟩
  | next reached moves ih =>
      obtain ⟨before, text, whole, marked, rfl⟩ := ih
      obtain ⟨passed, rest, rfl, -, rfl⟩ := exists_passed whole marked moves
      refine ⟨before ++ passed, rest, ?_, marked.trans (List.prefix_append _ _), rfl⟩
      rw [whole, List.append_assoc]

/-- What comes of a scan: its tokens, or what is wrong. -/
def outcome (source : String) (scan : Scan) : Except LexError (List Token) :=
  match scan.fault? with
  | some (kind, offset) => .error (.inSource source kind offset)
  | none => .ok scan.tokens

theorem outcome_after (token : Token) (scan : Scan) :
    outcome source (scan.after token) = (outcome source scan).map ([token] ++ ·) := by
  obtain ⟨tokens, fault⟩ := scan
  cases fault <;> rfl

/-- The turns from a boundary on come to what scanning the text there comes to. -/
theorem yields_textFrom (whole : source.toList = before ++ text)
    (marked : (splitMark source.toList).1 <+: before) :
    Yields source (byteLength before)
      (outcome source (Scan.textFrom (byteLength before) text)) := by
  generalize places : byteLength before = offset
  fun_induction Scan.textFrom offset text generalizing before with
  | case1 offset =>
      subst places
      rw [List.append_nil] at whole
      apply Yields.finished
      rw [turn_finished whole]
      rfl
  | case2 offset first rest blank ih =>
      subst places
      have wholeNext : source.toList = before ++ [first] ++ rest := by
        rw [whole, List.append_assoc]
        rfl
      have next : byteLength (before ++ [first]) = byteLength before + 1 := by
        rw [byteLength_append, byteLength_cons, utf8Size_blank blank]
        rfl
      have others := ih wholeNext (marked.trans (List.prefix_append _ _)) next
      have moves : (turn source (byteLength before)).result =
          .onwards none (byteLength before + 1) := by
        rw [turn_blank whole blank]
        rfl
      have all := Yields.onwards moves others
      generalize outcome source _ = result at all ⊢
      cases result <;> exact all
  | case3 offset first rest notBlank cut found ih =>
      subst places
      have parts := (Cut.front_consumes found).1
      have wholeNext : source.toList = before ++ cut.written ++ cut.rest := by
        rw [whole, ← parts, List.append_assoc]
      have others := ih wholeNext (marked.trans (List.prefix_append _ _)) (byteLength_append _ _)
      have moves := (gives_turn whole marked (by simpa using notBlank)).result_eq
      rw [found] at moves
      rw [outcome_after]
      exact .onwards moves others
  | case4 offset first rest notBlank fault found =>
      subst places
      have fails := (gives_turn whole marked (by simpa using notBlank)).result_eq
      rw [found] at fails
      exact .failed fails

/-- All turns together come to one thing. -/
theorem Yields.unique {cursor : Nat} {first second : Except LexError (List Token)}
    (yields : Yields source cursor first) (yieldsSecond : Yields source cursor second) :
    first = second := by
  induction yields generalizing second with
  | finished ends =>
      cases yieldsSecond with
      | finished => rfl
      | onwards moves others => cases ends.symm.trans moves
      | failed fails => cases ends.symm.trans fails
  | onwards moves others ih =>
      cases yieldsSecond with
      | finished ends => cases moves.symm.trans ends
      | onwards movesSecond othersSecond =>
          cases moves.symm.trans movesSecond
          rw [ih othersSecond]
      | failed fails => cases moves.symm.trans fails
  | failed fails =>
      cases yieldsSecond with
      | finished ends => cases fails.symm.trans ends
      | onwards moves others => cases fails.symm.trans moves
      | failed failsSecond =>
          cases fails.symm.trans failsSecond
          rfl

end Cursor

/-- Scanning with a cursor is safe on every source. Whenever a turn begins, the cursor is on a
boundary of the source, the turn takes no slices but such between boundaries, and the turn ends with
an error or further on; neither does finding a position fail. All turns come to the tokens of the
source or to its lexical error. -/
theorem tokenize_cursor_safe (source : String) :
    (∀ cursor, Cursor.Reaches source cursor → Cursor.SafeAt source cursor) ∧
      (LineMap.ofSource source).startOf 0 ≤ source.utf8ByteSize ∧
        (∀ offset, (LineMap.ofSource source).lineBetween ((LineMap.ofSource source).clamp offset) 0
          (LineMap.ofSource source).lineCount < (LineMap.ofSource source).lineCount) ∧
          ∀ outcome, Cursor.Yields source (Source.textStart source.toList) outcome ↔
            outcome = tokenize source := by
  have whole := (Source.splitMark_append source.toList).symm
  have yields : Cursor.Yields source (Source.textStart source.toList) (tokenize source) :=
    Cursor.yields_textFrom whole List.prefix_rfl
  refine ⟨?_, LineMap.startOf_zero_le source, LineMap.lineBetween_lt source, ?_⟩
  · intro cursor reached
    obtain ⟨before, text, wholeThere, marked, rfl⟩ := reached.exists_append
    exact Cursor.safeAt wholeThere marked
  · intro outcome
    constructor
    · intro yieldsOutcome
      exact yieldsOutcome.unique yields
    · rintro rfl
      exact yields

/-- For an error inside of a string literal, the turn looks at the character behind the backslash
and at the line in front. -/
example : (Cursor.turn "\"é\\ü" 0).spans = [⟨4, 6⟩, ⟨0, 3⟩] := by
  cbv

end JassExpr
