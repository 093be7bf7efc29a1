import JassExpr.Proofs.Cursor.Slices
import JassExpr.Proofs.Token.Faults

/-!
# Stepping through literals

Inside of a literal the cursor steps from byte to byte, also through those of longer characters.
When it leaves the literal, by its closing quote or at a character that must not stand there, it is
back on a boundary, and it is where reading the literal by characters comes to the same end.
-/

namespace JassExpr

namespace Cursor

open Source Text

variable {source : String} {before text rest : List Char} {first : Char}

theorem stringExit_of_ne {byte : UInt8} (notBackslash : byte.toChar ≠ '\\') (offset : Nat)
    (rest : List UInt8) :
    stringExit offset (byte :: rest) =
      if byte.toChar = '\x22' then .closed offset else stringExit (offset + 1) rest := by
  rw [stringExit.eq_def]
  exact if_neg notBackslash

/-- Bytes that are neither quotes nor backslashes are stepped over, whether or not they are
characters. -/
theorem stringExit_run {run : List UInt8} (offset : Nat) (rest : List UInt8)
    (notBackslash : ∀ byte ∈ run, byte.toChar ≠ '\\')
    (notQuote : ∀ byte ∈ run, byte.toChar ≠ '\x22') :
    stringExit offset (run ++ rest) = stringExit (offset + run.length) rest := by
  induction run generalizing offset with
  | nil => rfl
  | cons byte run ih =>
      rw [List.forall_mem_cons] at notBackslash notQuote
      rw [List.cons_append, stringExit_of_ne notBackslash.1, if_neg notQuote.1,
        ih (offset + 1) notBackslash.2 notQuote.2, List.length_cons, Nat.add_assoc, Nat.add_comm 1]

/-- The inside of a string literal is stepped through, back to a boundary. -/
theorem stringExit_append {body : List Char} (escaped : IsStringBody body) (offset : Nat)
    (rest : List UInt8) :
    stringExit offset (bytes body ++ rest) = stringExit (offset + byteLength body) rest := by
  induction escaped generalizing offset with
  | empty => rfl
  | @character first others notQuote notBackslash _ ih =>
      have isAscii : '\\'.toNat < 128 ∧ '\x22'.toNat < 128 := by decide
      have notBackslashBytes : ∀ byte ∈ String.utf8EncodeChar first, byte.toChar ≠ '\\' :=
        fun byte member isBackslash =>
          notBackslash ((toChar_eq_iff isAscii.1 member).mp isBackslash)
      have notQuoteBytes : ∀ byte ∈ String.utf8EncodeChar first, byte.toChar ≠ '\x22' :=
        fun byte member isQuote => notQuote ((toChar_eq_iff isAscii.2 member).mp isQuote)
      rw [bytes_cons, List.append_assoc, stringExit_run _ _ notBackslashBytes notQuoteBytes, ih,
        String.length_utf8EncodeChar, byteLength_cons, Nat.add_assoc]
  | @escape letter others known _ ih =>
      simp only [escapeLetters, List.mem_cons, List.not_mem_nil, or_false] at known
      have step : stringExit offset (bytes ('\\' :: letter :: others) ++ rest) =
          stringExit (offset + 2) (bytes others ++ rest) := by
        rcases known with rfl | rfl | rfl | rfl | rfl | rfl | rfl <;> rfl
      have size : letter.utf8Size = 1 := by
        rcases known with rfl | rfl | rfl | rfl | rfl | rfl | rfl <;> rfl
      rw [step, ih, byteLength_cons, byteLength_cons, size]
      have backslash : '\\'.utf8Size = 1 := rfl
      rw [backslash]
      congr 1
      omega

theorem stringExit_unknown {letter : Char} (unknown : letter ∉ escapeLetters) (offset : Nat)
    (others : List Char) :
    stringExit offset (bytes ('\\' :: letter :: others)) = .refused offset := by
  obtain ⟨byte, more, encoded, member⟩ := exists_utf8EncodeChar letter
  have same := bytewise_escapeLetters letter byte member
  rw [decide_eq_decide] at same
  have unknownByte : byte.toChar ∉ escapeLetters := fun known => unknown (same.mp known)
  have backslash : String.utf8EncodeChar '\\' = [0x5c] := rfl
  have isBackslash : (0x5c : UInt8).toChar = '\\' := rfl
  rw [bytes_cons, bytes_cons, encoded, backslash, List.singleton_append, List.cons_append,
    stringExit, if_pos isBackslash]
  exact if_neg unknownByte

/-- The exit from the inside of a literal that begins at an offset, given what is read of the
literal by characters. -/
def Exit.ofBody (offset : Nat) : Cut.Body → Exit
  | .closed body _ => .closed (offset + byteLength body)
  | .unclosed => .unclosed
  | .refused before _ => .refused (offset + byteLength before)

theorem stringExit_bytes (offset : Nat) (text : List Char) :
    stringExit offset (bytes text) = .ofBody offset (Cut.stringBody text) := by
  have shape := Cut.stringBody_shape text
  cases found : Cut.stringBody text with
  | closed body rest =>
      have notBackslash : (0x22 : UInt8).toChar ≠ '\\' := by decide
      rw [← Cut.stringBody_closed found, bytes_append,
        stringExit_append (Cut.isStringBody_of_closed found)]
      exact stringExit_of_ne notBackslash _ _
  | unclosed =>
      rw [found] at shape
      rcases shape with escaped | ⟨body, escaped, rfl⟩
      · rw [← List.append_nil (bytes text), stringExit_append escaped]
        rfl
      · rw [bytes_append, stringExit_append escaped]
        rfl
  | refused passed letter =>
      rw [found] at shape
      obtain ⟨escaped, unknown, rest, rfl⟩ := shape
      rw [bytes_append, stringExit_append escaped, stringExit_unknown unknown]
      rfl

theorem gives_string (whole : source.toList = before ++ '\x22' :: text)
    (marked : (splitMark source.toList).1 <+: before) :
    (string source (byteLength before)).Gives source
      (.ofFront source (byteLength before) (Cut.string text)) := by
  have next := next_place before (rfl : '\x22'.utf8Size = 1)
  have wholeBody : source.toList = before ++ ['\x22'] ++ text :=
    whole.trans (List.append_cons _ _ _)
  have shape := Cut.stringBody_shape text
  rw [string, next, bytesFrom_append wholeBody, stringExit_bytes, Cut.string]
  cases found : Cut.stringBody text with
  | closed body rest =>
      have wholeValue : source.toList = before ++ (['\x22'] ++ body ++ ['\x22'] ++ rest) := by
        rw [whole, ← Cut.stringBody_closed found]
        simp
      exact gives_valued wholeValue rfl (byteLength_append _ _).symm
  | unclosed => exact gives_fail .unterminatedString whole marked
  | refused passed letter =>
      rw [found] at shape
      obtain ⟨-, -, rest, rfl⟩ := shape
      have place : byteLength (before ++ ['\x22']) + byteLength passed =
          byteLength (before ++ '\x22' :: passed) := by
        rw [← byteLength_append, ← List.append_cons]
      have wholeEscape : source.toList = before ++ '\x22' :: passed ++ '\\' :: letter :: rest := by
        rw [whole, List.append_assoc]
        rfl
      have wholeLetter : source.toList = before ++ '\x22' :: passed ++ ['\\'] ++ letter :: rest :=
        wholeEscape.trans (List.append_cons _ _ _)
      have nextLetter := next_place (before ++ '\x22' :: passed) (rfl : '\\'.utf8Size = 1)
      simp only [Exit.ofBody, Turn.ofFront, place, nextLetter, ← byteLength_append]
      apply Sliced.Gives.bind (gives_characterAt wholeLetter)
      exact gives_fail _ wholeEscape (marked.trans (List.prefix_append _ _))

/-- The inside of a quoted integer is stepped through, all bytes of which are characters. -/
theorem quotedExit_append {code : List Char}
    (alphanumeric : ∀ character ∈ code, character.isAlphanum = true) (offset : Nat)
    (rest : List UInt8) :
    quotedExit offset (bytes code ++ rest) = quotedExit (offset + byteLength code) rest := by
  induction code generalizing offset with
  | nil => rfl
  | cons first code ih =>
      rw [List.forall_mem_cons] at alphanumeric
      have isAscii := lt_of_isAlphanum alphanumeric.1
      have notQuote : first ≠ '\x27' := by
        rintro rfl
        exact absurd alphanumeric.1 (by decide)
      rw [bytes_cons, utf8EncodeChar_of_lt isAscii, List.singleton_append, List.cons_append,
        quotedExit, toChar_ofNat isAscii, if_neg notQuote, if_pos alphanumeric.1, ih alphanumeric.2,
        byteLength_cons, utf8Size_of_lt isAscii, Nat.add_assoc]

theorem quotedExit_refused {refused : Char} (notAlphanumeric : refused.isAlphanum = false)
    (notQuote : refused ≠ '\x27') (offset : Nat) (others : List Char) :
    quotedExit offset (bytes (refused :: others)) = .refused offset := by
  obtain ⟨byte, more, encoded, member⟩ := exists_utf8EncodeChar refused
  have isAscii : '\x27'.toNat < 128 := by decide
  have notAlphanumericByte := (bytewise_isAlphanum refused byte member).trans notAlphanumeric
  rw [bytes_cons, encoded, List.cons_append, quotedExit,
    if_neg (notQuote ∘ (toChar_eq_iff isAscii member).mp), notAlphanumericByte]
  exact if_neg Bool.false_ne_true

theorem quotedExit_bytes (offset : Nat) (text : List Char) :
    quotedExit offset (bytes text) = .ofBody offset (Cut.quotedBody text) := by
  have shape := Cut.quotedBody_shape text
  cases found : Cut.quotedBody text with
  | closed body rest =>
      rw [← Cut.quotedBody_closed found, bytes_append,
        quotedExit_append (Cut.isAlphanum_of_closed found)]
      rfl
  | unclosed =>
      rw [found] at shape
      rw [← List.append_nil (bytes text), quotedExit_append shape]
      rfl
  | refused passed refused =>
      rw [found] at shape
      obtain ⟨alphanumeric, notAlphanumeric, notQuote, rest, rfl⟩ := shape
      rw [bytes_append, quotedExit_append alphanumeric,
        quotedExit_refused notAlphanumeric notQuote]
      rfl

theorem gives_quotedInteger (whole : source.toList = before ++ '\x27' :: text)
    (marked : (splitMark source.toList).1 <+: before) :
    (quotedInteger source (byteLength before)).Gives source
      (.ofFront source (byteLength before) (Cut.quotedInteger text)) := by
  have next := next_place before (rfl : '\x27'.utf8Size = 1)
  have wholeBody : source.toList = before ++ ['\x27'] ++ text :=
    whole.trans (List.append_cons _ _ _)
  have shape := Cut.quotedBody_shape text
  rw [quotedInteger, next, bytesFrom_append wholeBody, quotedExit_bytes, Cut.quotedInteger]
  cases found : Cut.quotedBody text with
  | closed body rest =>
      have wholeValue : source.toList = before ++ (['\x27'] ++ body ++ ['\x27'] ++ rest) := by
        rw [whole, ← Cut.quotedBody_closed found]
        simp
      exact gives_valued wholeValue rfl (byteLength_append _ _).symm
  | unclosed => exact gives_fail .unterminatedQuotedInteger whole marked
  | refused passed refused =>
      rw [found] at shape
      obtain ⟨-, -, -, rest, rfl⟩ := shape
      have place : byteLength (before ++ ['\x27']) + byteLength passed =
          byteLength (before ++ '\x27' :: passed) := by
        rw [← byteLength_append, ← List.append_cons]
      have wholeRefused : source.toList = before ++ '\x27' :: passed ++ refused :: rest := by
        rw [whole, List.append_assoc]
        rfl
      simp only [Exit.ofBody, Turn.ofFront, place, ← byteLength_append]
      apply Sliced.Gives.bind (gives_characterAt wholeRefused)
      exact gives_fail _ wholeRefused (marked.trans (List.prefix_append _ _))

end Cursor

end JassExpr
