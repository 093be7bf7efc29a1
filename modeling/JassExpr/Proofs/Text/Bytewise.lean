import JassExpr.Proofs.Token.Lossless

/-!
# Reading a text byte by byte

In the UTF-8 form of a text, the characters below 128 are one byte each, and all bytes of the others
are 128 or more. A scanner that takes each byte for a character of its own therefore tells apart as
many characters as it has to, as long as it treats all those from 128 on alike.
-/

namespace JassExpr

namespace Text

variable {α : Type} {read : Char → α} {character : Char}

theorem toNat_toChar (byte : UInt8) : byte.toChar.toNat = byte.toNat :=
  rfl

theorem utf8EncodeChar_of_lt (isAscii : character.toNat < 128) :
    String.utf8EncodeChar character = [UInt8.ofNat character.toNat] := by
  have notLong : character.val.toNat ≤ 127 := Nat.le_of_lt_succ isAscii
  simp only [String.utf8EncodeChar]
  rw [if_pos notLong]
  rfl

theorem utf8Size_of_lt (isAscii : character.toNat < 128) : character.utf8Size = 1 := by
  rw [← String.length_utf8EncodeChar, utf8EncodeChar_of_lt isAscii]
  rfl

theorem toChar_ofNat (isAscii : character.toNat < 128) :
    (UInt8.ofNat character.toNat).toChar = character := by
  apply Char.toNat_inj.mp
  rw [toNat_toChar, UInt8.toNat_ofNat']
  exact Nat.mod_eq_of_lt (Nat.lt_trans isAscii (by decide))

theorem le_toNat_ofNat {value : Nat} (large : 128 ≤ value % 256) :
    128 ≤ (UInt8.ofNat value).toNat := by
  rwa [UInt8.toNat_ofNat']

theorem le_of_mem_utf8EncodeChar (notAscii : 128 ≤ character.toNat) :
    ∀ byte ∈ String.utf8EncodeChar character, 128 ≤ byte.toNat := by
  have long : ¬ character.val.toNat ≤ 127 := Nat.not_le_of_lt notAscii
  simp only [String.utf8EncodeChar]
  rw [if_neg long]
  generalize character.val.toNat = code
  -- A first byte has its two highest bits set, and all others just the highest of them.
  split_ifs <;> simp only [List.forall_mem_cons, List.not_mem_nil, false_imp_iff, implies_true,
    and_true]
  · exact ⟨le_toNat_ofNat (by omega), le_toNat_ofNat (by omega)⟩
  · exact ⟨le_toNat_ofNat (by omega), le_toNat_ofNat (by omega), le_toNat_ofNat (by omega)⟩
  · exact ⟨le_toNat_ofNat (by omega), le_toNat_ofNat (by omega), le_toNat_ofNat (by omega),
      le_toNat_ofNat (by omega)⟩

/-- What is read off any byte of a character, taken for a character of its own, is what is read off
the character. -/
def Bytewise (read : Char → α) : Prop :=
  ∀ character, ∀ byte ∈ String.utf8EncodeChar character, read byte.toChar = read character

/-- What is the same for all characters from 128 on may be read off bytes. -/
theorem bytewise_of_forall_eq (other : α)
    (same : ∀ character : Char, 128 ≤ character.toNat → read character = other) :
    Bytewise read := by
  intro character byte member
  by_cases isAscii : character.toNat < 128
  · rw [utf8EncodeChar_of_lt isAscii, List.mem_singleton] at member
    rw [member, toChar_ofNat isAscii]
  · have notAscii := Nat.le_of_not_lt isAscii
    rw [same character notAscii]
    apply same
    rw [toNat_toChar]
    exact le_of_mem_utf8EncodeChar notAscii byte member

/-- A test that only characters below 128 pass may be put to bytes. -/
theorem bytewise_of_forall_lt {test : Char → Bool}
    (isAscii : ∀ character, test character = true → character.toNat < 128) : Bytewise test := by
  apply bytewise_of_forall_eq false
  intro character notAscii
  rw [← Bool.not_eq_true]
  intro passes
  exact absurd (isAscii character passes) (Nat.not_lt_of_le notAscii)

/-! ## What a scanner reads off characters -/

theorem bytewise_eq {known : Char} (isAscii : known.toNat < 128) :
    Bytewise fun character => decide (character = known) := by
  apply bytewise_of_forall_lt
  intro character same
  rwa [of_decide_eq_true same]

/-- A character below 128 is found among the bytes of a text just where it is in the text. -/
theorem toChar_eq_iff {known : Char} (isAscii : known.toNat < 128) {byte : UInt8}
    (member : byte ∈ String.utf8EncodeChar character) :
    byte.toChar = known ↔ character = known := by
  have same := bytewise_eq isAscii character byte member
  rwa [decide_eq_decide] at same

/-- The byte of a line feed is part of no other character. -/
theorem lineFeed_notMem_utf8EncodeChar (notFeed : character ≠ '\n') :
    0x0a ∉ String.utf8EncodeChar character := by
  have isAscii : '\n'.toNat < 128 := by decide
  intro member
  exact notFeed ((toChar_eq_iff isAscii member).mp rfl)

theorem lt_of_isAlphanum (alphanumeric : character.isAlphanum = true) : character.toNat < 128 := by
  delta Char.isAlphanum Char.isAlpha at alphanumeric
  simp only [Bool.or_eq_true, isUpper_iff_toNat, isLower_iff_toNat, isDigit_iff_toNat]
    at alphanumeric
  omega

theorem bytewise_startsWord : Bytewise Cut.startsWord := by
  apply bytewise_of_forall_lt
  intro character starts
  rw [startsWord_iff_toNat] at starts
  omega

theorem bytewise_isDigit : Bytewise Char.isDigit := by
  apply bytewise_of_forall_lt
  intro character digit
  rw [isDigit_iff_toNat] at digit
  omega

theorem bytewise_isAlphanum : Bytewise Char.isAlphanum :=
  bytewise_of_forall_lt fun _ => lt_of_isAlphanum

theorem bytewise_continuesWord : Bytewise Cut.continuesWord := by
  apply bytewise_of_forall_lt
  intro character continues
  rw [Cut.continuesWord, Bool.or_eq_true, beq_iff_eq] at continues
  rcases continues with alphanumeric | rfl
  · exact lt_of_isAlphanum alphanumeric
  · decide

theorem bytewise_octal : Bytewise Radix.octal.isDigit := by
  apply bytewise_of_forall_lt
  intro character octal
  rw [octal_iff_toNat] at octal
  omega

theorem bytewise_hexadecimal : Bytewise Radix.hexadecimal.isDigit :=
  bytewise_of_forall_lt fun _ hexadecimal =>
    lt_of_isAlphanum (isAlphanum_of_hexadecimal hexadecimal)

theorem bytewise_isBlank : Bytewise isBlank := by
  apply bytewise_of_forall_lt
  intro character blank
  rcases isBlank_iff.mp blank with rfl | rfl | rfl | rfl <;> decide

theorem bytewise_continuesLine : Bytewise Cut.continuesLine := by
  apply bytewise_of_forall_eq true
  intro character notAscii
  have notFeed : character ≠ '\n' := by
    rintro rfl
    exact absurd notAscii (by decide)
  have notReturn : character ≠ '\r' := by
    rintro rfl
    exact absurd notAscii (by decide)
  simp [Cut.continuesLine, notFeed, notReturn]

theorem bytewise_escapeLetters : Bytewise fun letter => decide (letter ∈ escapeLetters) := by
  apply bytewise_of_forall_lt
  intro letter member
  have known := of_decide_eq_true member
  simp only [escapeLetters, List.mem_cons, List.not_mem_nil, or_false] at known
  rcases known with rfl | rfl | rfl | rfl | rfl | rfl | rfl <;> decide

theorem bytewise_singleSymbol : Bytewise Cut.singleSymbol? := by
  apply bytewise_of_forall_eq none
  intro character notAscii
  unfold Cut.singleSymbol?
  split <;> first | rfl | exact absurd notAscii (by decide)

theorem bytewise_doubleSymbol_left (second : Char) :
    Bytewise fun first => Cut.doubleSymbol? first second := by
  apply bytewise_of_forall_eq none
  intro character notAscii
  unfold Cut.doubleSymbol?
  split <;> first | rfl | exact absurd notAscii (by decide)

theorem bytewise_doubleSymbol (first : Char) : Bytewise (Cut.doubleSymbol? first) := by
  apply bytewise_of_forall_eq none
  intro character notAscii
  unfold Cut.doubleSymbol?
  split <;> first | rfl | exact absurd notAscii (by decide)

end Text

namespace Source

open Text

theorem exists_utf8EncodeChar (character : Char) :
    ∃ byte others, String.utf8EncodeChar character = byte :: others ∧
      byte ∈ String.utf8EncodeChar character := by
  have nonempty : String.utf8EncodeChar character ≠ [] := by
    rw [← List.length_pos_iff, String.length_utf8EncodeChar]
    exact character.utf8Size_pos
  obtain ⟨byte, others, encoded⟩ := List.exists_cons_of_ne_nil nonempty
  exact ⟨byte, others, encoded, by rw [encoded]; exact List.mem_cons_self⟩

/-- A run of bytes that pass a test is the run of characters that pass it. -/
theorem takeWhile_bytes {test : Char → Bool} (bytewise : Bytewise test) (text : List Char) :
    (bytes text).takeWhile (fun byte => test byte.toChar) = bytes (text.takeWhile test) := by
  induction text with
  | nil => rfl
  | cons character text ih =>
      rw [bytes_cons]
      by_cases passes : test character = true
      · have allPass : ∀ byte ∈ String.utf8EncodeChar character, test byte.toChar = true :=
          fun byte member => (bytewise character byte member).trans passes
        rw [List.takeWhile_append_of_pos allPass, ih, List.takeWhile_cons_of_pos passes, bytes_cons]
      · obtain ⟨byte, others, encoded, member⟩ := exists_utf8EncodeChar character
        have firstFails : ¬ test byte.toChar = true := by
          rwa [bytewise character byte member]
        have noneTaken : (byte :: (others ++ bytes text)).takeWhile
            (fun byte => test byte.toChar) = [] := List.takeWhile_cons_of_neg firstFails
        rw [encoded, List.cons_append, noneTaken, List.takeWhile_cons_of_neg passes]
        rfl

/-- What is read off the next byte is what is read off the next character. -/
theorem map_head?_bytes {α : Type} {read : Char → α} (bytewise : Bytewise read)
    (text : List Char) :
    (bytes text).head?.map (fun byte => read byte.toChar) = text.head?.map read := by
  cases text with
  | nil => rfl
  | cons character text =>
      obtain ⟨byte, others, encoded, member⟩ := exists_utf8EncodeChar character
      rw [bytes_cons, encoded]
      exact congrArg some (bytewise character byte member)

theorem count_bytes_lineFeed (text : List Char) : (bytes text).count 0x0a = text.count '\n' := by
  induction text with
  | nil => rfl
  | cons character text ih =>
      rw [bytes_cons, List.count_append, ih]
      by_cases isFeed : character = '\n'
      · subst isFeed
        rw [List.count_cons_self, Nat.add_comm]
        rfl
      · rw [List.count_eq_zero.mpr (lineFeed_notMem_utf8EncodeChar isFeed), Nat.zero_add,
          List.count_cons_of_ne isFeed]

end Source

end JassExpr
