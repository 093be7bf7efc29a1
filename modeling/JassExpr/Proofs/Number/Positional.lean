import Mathlib.Data.List.Basic
import Mathlib.Data.Nat.Digits.Defs
import JassExpr.Number.Binary64
import JassExpr.Proofs.Text.CharacterClass

/-!
# Positional values

The value of a digit is its place among the sixteen digits, and that of a sequence of digits counts
each with a power of the base. Reading an integer finds just this value and refuses it when it takes
more than 63 bits. A real number has no such bound: whatever is written with digits around a point
is read.
-/

namespace JassExpr

theorem Text.toLower_of_not_isUpper {character : Char} (notUpper : ¬character.isUpper = true) :
    character.toLower = character := by
  rw [Text.isUpper_iff_toNat] at notUpper
  have outside : ¬(character.val ≥ 'A'.val ∧ character.val ≤ 'Z'.val) := notUpper
  exact dif_neg outside

namespace Radix

/-- The digits from zero on, with letters in lower case after nine. -/
def numerals : List Char :=
  ['0', '1', '2', '3', '4', '5', '6', '7', '8', '9', 'a', 'b', 'c', 'd', 'e', 'f']

/-- The place of a character among the digits, in either case. What is no digit comes after them
all. -/
def place (character : Char) : Nat :=
  numerals.idxOf character.toLower

/-- The value of some digits in a radix, the highest of them first. -/
def positional (radix : Radix) (digits : List Char) : Nat :=
  Nat.ofDigits radix.base (digits.reverse.map place)

theorem base_le (radix : Radix) : radix.base ≤ numerals.length := by
  cases radix <;> decide

/-- No character from 128 on is a digit. -/
theorem place_of_le {character : Char} (notAscii : 128 ≤ character.toNat) :
    place character = numerals.length := by
  have same : character.toLower = character := by
    apply Text.toLower_of_not_isUpper
    rw [Text.isUpper_iff_toNat]
    omega
  have ascii : ∀ numeral ∈ numerals, numeral.toNat < 128 := by simp [numerals]
  rw [place, same, List.idxOf_eq_length_iff]
  intro member
  have := ascii character member
  omega

/-- The digits of a radix are the characters whose places are below its base. -/
theorem digit?_eq (radix : Radix) (character : Char) :
    radix.digit? character =
      if place character < radix.base then some (place character) else none := by
  by_cases isAscii : character.toNat < 128
  · have each : ∀ code < 128, radix.digit? (Char.ofNat code) =
        if place (Char.ofNat code) < radix.base then some (place (Char.ofNat code)) else none := by
      cases radix <;> decide +kernel
    have found := each character.toNat isAscii
    rwa [Char.ofNat_toNat] at found
  · have notAscii := Nat.le_of_not_lt isAscii
    have noValue : alphanumericValue? character = none := by
      rw [alphanumericValue?, if_neg, if_neg, if_neg]
      · rw [Text.isUpper_iff_toNat]
        omega
      · rw [Text.isLower_iff_toNat]
        omega
      · rw [Text.isDigit_iff_toNat]
        omega
    rw [digit?, noValue, place_of_le notAscii, if_neg (Nat.not_lt_of_le radix.base_le)]
    rfl

theorem isDigit_iff {radix : Radix} {character : Char} :
    radix.isDigit character = true ↔ place character < radix.base := by
  rw [isDigit, digit?_eq]
  split <;> simp_all

theorem decimal_isDigit_iff {character : Char} :
    decimal.isDigit character = true ↔ character.isDigit = true := by
  have base : decimal.base = 10 := rfl
  rw [Text.isDigit_iff_toNat]
  unfold isDigit digit? alphanumericValue?
  simp only [Text.isDigit_iff_toNat]
  split
  · simp
    omega
  · split
    · simp
      omega
    · split
      · simp
        omega
      · simp
        omega

theorem positional_cons (radix : Radix) (first : Char) (rest : List Char) :
    radix.positional (first :: rest) =
      place first * radix.base ^ rest.length + radix.positional rest := by
  rw [positional, List.reverse_cons, List.map_append, List.map_singleton, Nat.ofDigits_append,
    Nat.ofDigits_singleton, List.length_map, List.length_reverse, Nat.mul_comm, Nat.add_comm]
  rfl

/-- Digits after a value that was read count as if the value stood in front of them. -/
theorem valueFrom?_eq (radix : Radix) {digits : List Char}
    (each : ∀ digit ∈ digits, radix.isDigit digit = true) (value : Nat) :
    radix.valueFrom? value digits =
      some (value * radix.base ^ digits.length + radix.positional digits) := by
  induction digits generalizing value with
  | nil => simp [valueFrom?, positional]
  | cons first rest ih =>
      obtain ⟨isDigit, others⟩ := List.forall_mem_cons.mp each
      rw [valueFrom?, digit?_eq, if_pos (isDigit_iff.mp isDigit), Option.bind_some, ih others,
        positional_cons, List.length_cons, Nat.pow_succ]
      congr 1
      ring

theorem value?_eq (radix : Radix) {digits : List Char} (nonempty : digits ≠ [])
    (each : ∀ digit ∈ digits, radix.isDigit digit = true) :
    radix.value? digits = some (radix.positional digits) := by
  cases digits with
  | nil => exact absurd rfl nonempty
  | cons first rest =>
      have found := radix.valueFrom?_eq each 0
      rwa [Nat.zero_mul, Nat.zero_add] at found

/-- A value that is not negative fits when it takes no more than 63 bits. -/
theorem signed64?_natCast (value : Nat) :
    signed64? value = if value < 2 ^ 63 then some (value : Int) else none := by
  have limit : Int.pow 2 63 = 9223372036854775808 := by decide
  rw [signed64?, limit]
  split <;> split <;> first | rfl | omega

/-- Digits are read as their positional value, or not at all if it takes more than 63 bits. -/
theorem readInteger?_eq (radix : Radix) {digits : List Char} (nonempty : digits ≠ [])
    (each : ∀ digit ∈ digits, radix.isDigit digit = true) :
    radix.readInteger? digits =
      if radix.positional digits < 2 ^ 63 then some (radix.positional digits : Int) else none := by
  have value := radix.value?_eq nonempty each
  have unsigned : ∀ sign rest, digits = sign :: rest → radix.isDigit sign = true := by
    rintro sign rest rfl
    exact each sign List.mem_cons_self
  rw [← signed64?_natCast]
  unfold readInteger?
  split
  · rename_i rest
    have isDigit := unsigned '+' rest rfl
    cases radix <;> exact absurd isDigit (by decide)
  · rename_i rest
    have isDigit := unsigned '-' rest rfl
    cases radix <;> exact absurd isDigit (by decide)
  · rw [value, Option.bind_some]

end Radix

namespace Binary64

variable {whole fraction : List Char}

/-- Digits around a point are read as some number. -/
theorem exists_readDecimal? (nonempty : whole ≠ [])
    (inWhole : ∀ digit ∈ whole, digit.isDigit = true)
    (inFraction : ∀ digit ∈ fraction, digit.isDigit = true) :
    ∃ magnitude, readDecimal? (whole ++ '.' :: fraction) = some magnitude := by
  have stops : ∀ next ∈ ('.' :: fraction).head?, next.isDigit = false := by
    rintro _ ⟨⟩
    rfl
  have split : splitFraction ('.' :: fraction) = (fraction, []) := by
    have taken : (fraction ++ []).takeWhile Char.isDigit = fraction :=
      Text.takeWhile_run inFraction (by simp)
    have left : (fraction ++ []).dropWhile Char.isDigit = [] :=
      Text.dropWhile_run inFraction (by simp)
    rw [List.append_nil] at taken left
    rw [splitFraction, taken, left]
  have value := Radix.value?_eq .decimal (List.append_ne_nil_of_left_ne_nil nonempty fraction)
    fun digit member => Radix.decimal_isDigit_iff.mpr
      ((List.mem_append.mp member).elim (inWhole digit) (inFraction digit))
  unfold readDecimal?
  simp only [Text.takeWhile_run inWhole stops, Text.dropWhile_run inWhole stops, split, value,
    Option.bind_some]
  exact ⟨_, rfl⟩

/-- What begins with a digit has no sign and is not spelled out. -/
theorem read?_cons {first : Char} {rest : List Char} (digit : first.isDigit = true) :
    read? (first :: rest) = (readDecimal? (first :: rest)).map (ofMagnitude false) := by
  have range := Text.isDigit_iff_toNat.mp digit
  have same : first.toLower = first := by
    apply Text.toLower_of_not_isUpper
    rw [Text.isUpper_iff_toNat]
    omega
  have notSign : first ≠ '+' ∧ first ≠ '-' := by
    constructor <;> (rintro rfl; cases digit)
  have notLetter : first ≠ 'i' ∧ first ≠ 'n' := by
    constructor <;> (rintro rfl; cases digit)
  have signless : read? (first :: rest) =
      (readMagnitude? (first :: rest)).map (ofMagnitude false) := by
    unfold read?
    split <;> simp_all
  rw [signless, readMagnitude?, List.map_cons, same, if_neg, if_neg]
  · simp [notLetter]
  · simp [notLetter]

/-- Digits around a point stand for a double-precision number. -/
theorem exists_read? (nonempty : whole ≠ []) (inWhole : ∀ digit ∈ whole, digit.isDigit = true)
    (inFraction : ∀ digit ∈ fraction, digit.isDigit = true) :
    ∃ value, read? (whole ++ '.' :: fraction) = some value := by
  obtain ⟨magnitude, isDecimal⟩ := exists_readDecimal? nonempty inWhole inFraction
  obtain ⟨first, rest, rfl⟩ := List.exists_cons_of_ne_nil nonempty
  refine ⟨ofMagnitude false magnitude, ?_⟩
  rw [List.cons_append, read?_cons (inWhole first List.mem_cons_self), ← List.cons_append,
    isDecimal, Option.map_some]

end Binary64

end JassExpr
