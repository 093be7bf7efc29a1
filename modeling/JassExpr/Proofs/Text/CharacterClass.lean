import JassExpr.Token.Scan

/-!
# Classes of characters

The classes that a scanner tests are ranges of code points. Written as ranges, that two of them
meet or do not meet is arithmetic. Also here: how a run of characters of one class is cut off a
text, and the classes to which no blank belongs.
-/

namespace JassExpr

namespace Text

theorem isUpper_iff_toNat {character : Char} :
    character.isUpper = true ↔ 65 ≤ character.toNat ∧ character.toNat ≤ 90 := by
  delta Char.isUpper
  simp [UInt32.le_iff_toNat_le]

theorem isLower_iff_toNat {character : Char} :
    character.isLower = true ↔ 97 ≤ character.toNat ∧ character.toNat ≤ 122 := by
  delta Char.isLower
  simp [UInt32.le_iff_toNat_le]

theorem isDigit_iff_toNat {character : Char} :
    character.isDigit = true ↔ 48 ≤ character.toNat ∧ character.toNat ≤ 57 :=
  Char.isDigit_iff_toNat

theorem startsWord_iff_toNat {character : Char} :
    Cut.startsWord character = true ↔
      (65 ≤ character.toNat ∧ character.toNat ≤ 90) ∨
        (97 ≤ character.toNat ∧ character.toNat ≤ 122) ∨ character.toNat = 95 := by
  unfold Cut.startsWord
  delta Char.isAlpha
  simp only [Bool.or_eq_true, isUpper_iff_toNat, isLower_iff_toNat, beq_iff_eq,
    ← Char.toNat_inj, or_assoc]
  rfl

theorem octal_iff_toNat {character : Char} :
    Radix.octal.isDigit character = true ↔ 48 ≤ character.toNat ∧ character.toNat ≤ 55 := by
  have base : Radix.octal.base = 8 := rfl
  unfold Radix.isDigit Radix.digit? Radix.alphanumericValue?
  split
  · rename_i digit
    have range := isDigit_iff_toNat.mp digit
    simp
    omega
  · rename_i notDigit
    rw [isDigit_iff_toNat] at notDigit
    split
    · simp
      omega
    · split
      · simp
        omega
      · simp
        omega

/-- No word begins with a digit. -/
theorem not_startsWord_of_isDigit {character : Char} (digit : character.isDigit = true) :
    Cut.startsWord character = false := by
  have range := isDigit_iff_toNat.mp digit
  rw [← Bool.not_eq_true, startsWord_iff_toNat]
  omega

theorem continuesWord_of_startsWord {character : Char}
    (starts : Cut.startsWord character = true) :
    Cut.continuesWord character = true := by
  simp only [Cut.startsWord, Cut.continuesWord, Char.isAlphanum, Bool.or_eq_true] at starts ⊢
  exact starts.imp_left Or.inl

theorem isDigit_of_octal {character : Char} (octal : Radix.octal.isDigit character = true) :
    character.isDigit = true := by
  have range := octal_iff_toNat.mp octal
  rw [isDigit_iff_toNat]
  omega

theorem isAlphanum_of_hexadecimal {character : Char}
    (hexadecimal : Radix.hexadecimal.isDigit character = true) :
    character.isAlphanum = true := by
  unfold Radix.isDigit Radix.digit? Radix.alphanumericValue? at hexadecimal
  delta Char.isAlphanum Char.isAlpha
  simp only [Bool.or_eq_true]
  split at hexadecimal
  · exact .inr ‹_›
  · split at hexadecimal
    · exact .inl (.inr ‹_›)
    · split at hexadecimal
      · exact .inl (.inl ‹_›)
      · simp at hexadecimal

/-- Two decimal digits are no octal ones. -/
theorem large_of_not_octal {character : Char} (digit : character.isDigit = true)
    (notOctal : Radix.octal.isDigit character = false) :
    character = '8' ∨ character = '9' := by
  have range := isDigit_iff_toNat.mp digit
  rw [← Bool.not_eq_true, octal_iff_toNat] at notOctal
  simp only [← Char.toNat_inj]
  change character.toNat = 56 ∨ character.toNat = 57
  omega

variable {test : Char → Bool}

/-- A run of characters that pass a test ends before the first that does not. -/
theorem takeWhile_run {run rest : List Char} (passes : ∀ character ∈ run, test character = true)
    (stops : ∀ next ∈ rest.head?, test next = false) :
    (run ++ rest).takeWhile test = run := by
  rw [List.takeWhile_append_of_pos passes]
  cases rest with
  | nil => simp
  | cons next after => simp [stops next rfl]

theorem dropWhile_run {run rest : List Char} (passes : ∀ character ∈ run, test character = true)
    (stops : ∀ next ∈ rest.head?, test next = false) :
    (run ++ rest).dropWhile test = rest := by
  rw [List.dropWhile_append_of_pos passes]
  cases rest with
  | nil => simp
  | cons next after => simp [stops next rfl]

theorem forall_mem_takeWhile (text : List Char) :
    ∀ character ∈ text.takeWhile test, test character = true :=
  List.all_eq_true.mp List.all_takeWhile

theorem head?_dropWhile (text : List Char) :
    ∀ next ∈ (text.dropWhile test).head?, test next = false := by
  intro next found
  have stopped := List.head?_dropWhile_not test text
  rw [Option.mem_def.mp found] at stopped
  exact stopped

end Text

end JassExpr
