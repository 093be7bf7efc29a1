import JassExpr.Proofs.Cursor.Basic

/-!
# Reading on from a boundary

From a boundary between characters, the bytes tell as much as the characters do, and what is sliced
off between boundaries is there. The last facts of this file say so for passing a token, given where
its value begins and ends.
-/

namespace JassExpr

/-- A result comes about, and all slices on the way to it are there. -/
structure Sliced.Gives {α : Type} (source : String) (sliced : Sliced α) (result : α) : Prop where
  result_eq : sliced.result = result
  isSome : ∀ span ∈ sliced.spans, (span.slice? source).isSome

namespace Sliced.Gives

variable {source : String} {α β : Type}

theorem pure (result : α) : Gives source (Pure.pure result) result :=
  ⟨rfl, List.forall_mem_nil _⟩

theorem bind {first : Sliced α} {next : α → Sliced β} {result : α} {final : β}
    (gives : first.Gives source result) (givesNext : (next result).Gives source final) :
    (first >>= next).Gives source final := by
  obtain ⟨rfl, isSome⟩ := gives
  refine ⟨givesNext.result_eq, fun span member => ?_⟩
  rcases List.mem_append.mp member with earlier | later
  · exact isSome span earlier
  · exact givesNext.isSome span later

theorem slice {front middle back : List Char} {start stop : Nat}
    (whole : source.toList = front ++ middle ++ back) (starts : start = Source.byteLength front)
    (stops : stop = Source.byteLength (front ++ middle)) :
    (slice source ⟨start, stop⟩).Gives source (String.ofList middle) := by
  subst starts stops
  have sliced := Span.slice?_of_append whole
  constructor
  · rw [Sliced.slice, sliced]
    rfl
  · intro span member
    rw [List.mem_singleton.mp member, sliced]
    rfl

end Sliced.Gives

/-- What a turn has to come to from an offset, given what is cut off the text there. -/
def Turn.ofFront (source : String) (offset : Nat) : Except CutFault Cut → Turn
  | .ok cut =>
      .onwards (some (Scan.tokenOf offset cut)) (offset + Source.byteLength cut.written)
  | .error fault =>
      .failed (.inSource source fault.kind (offset + Source.byteLength fault.passed))

namespace Cursor

open Source Text

variable {source : String} {before text rest : List Char} {first : Char}

/-- The place behind a character of one byte. -/
theorem next_place (before : List Char) (size : first.utf8Size = 1) :
    byteLength before + 1 = byteLength (before ++ [first]) := by
  rw [byteLength_append, byteLength_cons, size]
  rfl

theorem bytesFrom_append (whole : source.toList = before ++ text) :
    bytesFrom source (byteLength before) = bytes text := by
  rw [bytesFrom, bytes_toList, whole, bytes_append, ← length_bytes, List.drop_left]

theorem byteAt?_nil (whole : source.toList = before) :
    byteAt? source (byteLength before) = none := by
  rw [← List.append_nil before] at whole
  rw [byteAt?, bytesFrom_append whole]
  rfl

/-- The byte in front of a text tells as much as its first character to what may be read off
bytes. -/
theorem byteAt?_cons (whole : source.toList = before ++ first :: rest) :
    ∃ lead, byteAt? source (byteLength before) = some lead ∧
      (∀ {α : Type} {read : Char → α}, Bytewise read → read lead = read first) ∧
        ∀ {known : Char}, known.toNat < 128 → (lead = known ↔ first = known) := by
  obtain ⟨byte, others, encoded, member⟩ := exists_utf8EncodeChar first
  refine ⟨byte.toChar, ?_, fun bytewise => bytewise first byte member, fun isAscii =>
    toChar_eq_iff isAscii member⟩
  rw [byteAt?, bytesFrom_append whole, bytes_cons, encoded]
  rfl

/-- What is read off the byte in front of a text is what is read off its first character. -/
theorem map_byteAt? {α : Type} {read : Char → α} (bytewise : Bytewise read)
    (whole : source.toList = before ++ text) :
    (byteAt? source (byteLength before)).map read = text.head?.map read := by
  rw [byteAt?, bytesFrom_append whole, Option.map_map]
  exact map_head?_bytes bytewise text

theorem any_byteAt? {test : Char → Bool} (bytewise : Bytewise test)
    (whole : source.toList = before ++ text) :
    (byteAt? source (byteLength before)).any test = text.head?.any test := by
  cases text with
  | nil =>
      rw [List.append_nil] at whole
      rw [byteAt?_nil whole]
      rfl
  | cons first rest =>
      obtain ⟨lead, found, same, -⟩ := byteAt?_cons whole
      rw [found]
      exact same bytewise

theorem byteAt?_eq_some_iff {known : Char} (isAscii : known.toNat < 128)
    (whole : source.toList = before ++ text) :
    byteAt? source (byteLength before) = some known ↔ text.head? = some known := by
  cases text with
  | nil =>
      rw [List.append_nil] at whole
      simp [byteAt?_nil whole]
  | cons first rest =>
      obtain ⟨lead, found, -, same_iff⟩ := byteAt?_cons whole
      simp [found, same_iff isAscii]

theorem pass_append {test : Char → Bool} (bytewise : Bytewise test)
    (whole : source.toList = before ++ text) :
    pass source test (byteLength before) = byteLength (before ++ text.takeWhile test) := by
  rw [pass, bytesFrom_append whole, takeWhile_bytes bytewise, length_bytes, byteLength_append]

theorem gives_characterAt (whole : source.toList = before ++ first :: rest) :
    (characterAt source (byteLength before)).Gives source first := by
  have wholeSlice : source.toList = before ++ (first :: rest) ++ [] := by
    rw [whole, List.append_nil]
  have stops : source.utf8ByteSize = byteLength (before ++ first :: rest) := by
    rw [utf8ByteSize_eq, whole]
  apply Sliced.Gives.bind (.slice wholeSlice rfl stops)
  rw [String.toList_ofList]
  exact .pure first

theorem gives_positionOf (whole : source.toList = before ++ text)
    (marked : (splitMark source.toList).1 <+: before) :
    (positionOf source (byteLength before)).Gives source
      ((LineMap.ofSource source).position (byteLength before)) := by
  obtain ⟨earlier, line, parts, clamped, starts⟩ := LineMap.exists_line_of_append whole marked
  have wholeLine : source.toList = earlier ++ line ++ text := by rw [whole, parts]
  have column := charactersWithin_middle earlier line text
  rw [← wholeLine, ← parts] at column
  rw [positionOf, LineMap.position, clamped, starts]
  apply Sliced.Gives.bind (.slice wholeLine rfl (by rw [parts]))
  rw [String.toList_ofList, ← column]
  exact .pure _

theorem gives_fail (kind : LexErrorKind) (whole : source.toList = before ++ text)
    (marked : (splitMark source.toList).1 <+: before) :
    (fail source kind (byteLength before)).Gives source
      (.failed (.inSource source kind (byteLength before))) :=
  .bind (gives_positionOf whole marked) (.pure _)

/-- A token with a slice between two marks as its value is the token that is cut off. -/
theorem gives_valued {kind : TokenKind} {opening value closing : List Char} {start stop : Nat}
    (whole : source.toList = before ++ (opening ++ value ++ closing ++ rest))
    (starts : start = byteLength (before ++ opening))
    (stops : stop = byteLength (before ++ opening ++ value)) :
    (valued source kind (byteLength before) ⟨start, stop⟩ (stop + byteLength closing)).Gives source
      (.ofFront source (byteLength before)
        (.ok (Cut.enclosing kind opening value closing rest))) := by
  have wholeValue : source.toList = before ++ opening ++ value ++ (closing ++ rest) := by
    simpa using whole
  have end_ : stop + byteLength closing =
      byteLength before + byteLength (opening ++ value ++ closing) := by
    rw [stops]
    simp only [byteLength_append, Nat.add_assoc]
  rw [end_]
  exact .bind (.slice wholeValue starts stops) (.pure _)

theorem gives_plain {kind : TokenKind} {written : List Char} {stop : Nat}
    (whole : source.toList = before ++ (written ++ rest))
    (stops : stop = byteLength (before ++ written)) :
    (valued source kind (byteLength before) ⟨byteLength before, stop⟩ stop).Gives source
      (.ofFront source (byteLength before) (.ok (Cut.plain kind written rest))) := by
  rw [← List.append_assoc] at whole
  apply Sliced.Gives.bind (.slice whole rfl stops)
  rw [Turn.ofFront, Cut.plain, Scan.tokenOf, ← byteLength_append, ← stops]
  exact .pure _

theorem gives_bare (kind : TokenKind) {written : List Char} {stop : Nat}
    (stops : stop = byteLength (before ++ written)) :
    (fixed kind (byteLength before) stop).Gives source
      (.ofFront source (byteLength before) (.ok (Cut.bare kind written rest))) := by
  rw [stops, byteLength_append]
  exact .pure _

end Cursor

end JassExpr
