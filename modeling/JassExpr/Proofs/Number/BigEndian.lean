import Mathlib.Data.Nat.Digits.Lemmas
import Mathlib.Tactic.Ring
import JassExpr.Expr.Literal

/-!
# Bytes as the digits of a number

Bytes stand for a number in base 256, the highest of them first. As long as there are no more than
four, that number is found in 32 bits by shifting and adding one byte after the other, and no bit is
ever shifted away. Without zeros among the bytes, no two sequences stand for one number, not even
two of different lengths.
-/

namespace JassExpr

/-- The number that bytes stand for, the highest of them first. -/
def bigEndian (bytes : List UInt8) : Nat :=
  Nat.ofDigits 256 (bytes.reverse.map UInt8.toNat)

theorem bigEndian_cons (byte : UInt8) (bytes : List UInt8) :
    bigEndian (byte :: bytes) = byte.toNat * 256 ^ bytes.length + bigEndian bytes := by
  rw [bigEndian, List.reverse_cons, List.map_append, List.map_singleton, Nat.ofDigits_append,
    Nat.ofDigits_singleton, List.length_map, List.length_reverse, Nat.mul_comm, Nat.add_comm]
  rfl

/-- A byte is put behind 24 bits without loss. -/
theorem toNat_shiftLeft_or {value : UInt32} (fits : value.toNat < 256 ^ 3) (byte : UInt8) :
    (value <<< 8 ||| byte.toUInt32).toNat = value.toNat * 256 + byte.toNat := by
  have shifted : (value <<< 8).toNat = value.toNat <<< 8 := by
    rw [UInt32.toNat_shiftLeft]
    apply Nat.mod_eq_of_lt
    have width : (8 : UInt32).toNat % 32 = 8 := rfl
    rw [width, Nat.shiftLeft_eq]
    omega
  rw [UInt32.toNat_or, shifted, UInt8.toNat_toUInt32,
    ← Nat.shiftLeft_add_eq_or_of_lt byte.toNat_lt, Nat.shiftLeft_eq]

/-- Bytes are put behind a number without loss as long as all of them have room in 32 bits. -/
theorem toNat_foldl_shiftLeft_or {bytes : List UInt8} {value : UInt32} {used : Nat}
    (fits : value.toNat < 256 ^ used) (room : used + bytes.length ≤ 4) :
    (bytes.foldl (fun (value : UInt32) byte => value <<< 8 ||| byte.toUInt32) value).toNat =
      value.toNat * 256 ^ bytes.length + bigEndian bytes := by
  induction bytes generalizing value used with
  | nil => simp [bigEndian]
  | cons byte bytes ih =>
      rw [List.length_cons] at room
      have small : value.toNat < 256 ^ 3 :=
        Nat.lt_of_lt_of_le fits (Nat.pow_le_pow_right (by decide) (by omega))
      have next := toNat_shiftLeft_or small byte
      have fitsNext : (value <<< 8 ||| byte.toUInt32).toNat < 256 ^ (used + 1) := by
        have := byte.toNat_lt
        rw [next, Nat.pow_succ]
        omega
      rw [List.foldl_cons, ih fitsNext (by omega), next, bigEndian_cons, List.length_cons,
        Nat.pow_succ]
      ring

/-- The digits of the number that bytes stand for are the bytes, unless a zero is in front. -/
theorem digits_bigEndian {bytes : List UInt8} (nonzero : ∀ byte ∈ bytes, byte ≠ 0) :
    Nat.digits 256 (bigEndian bytes) = bytes.reverse.map UInt8.toNat := by
  apply Nat.digits_ofDigits 256 (by decide)
  · intro digit member
    obtain ⟨byte, -, rfl⟩ := List.mem_map.mp member
    exact byte.toNat_lt
  · intro nonempty isZero
    obtain ⟨byte, member, same⟩ := List.mem_map.mp (List.getLast_mem nonempty)
    rw [isZero] at same
    exact nonzero byte (List.mem_reverse.mp member) (UInt8.toNat_inj.mp same)

theorem eq_of_bigEndian_eq {first second : List UInt8} (nonzero : ∀ byte ∈ first, byte ≠ 0)
    (nonzero' : ∀ byte ∈ second, byte ≠ 0) (same : bigEndian first = bigEndian second) :
    first = second := by
  have digits : first.reverse.map UInt8.toNat = second.reverse.map UInt8.toNat := by
    rw [← digits_bigEndian nonzero, ← digits_bigEndian nonzero', same]
  have injective : Function.Injective UInt8.toNat := fun _ _ => UInt8.toNat_inj.mp
  exact List.reverse_injective (injective.list_map digits)

namespace Literal

/-- A quoted integer has the number of its bytes as its value, unless these are more than four. -/
theorem quotedValue?_eq (code : String) :
    (4 < (codeBytes code).length → quotedValue? (.quotedInteger code) = none) ∧
      ((codeBytes code).length ≤ 4 → ∃ value, quotedValue? (.quotedInteger code) = some value ∧
        value.toNat = bigEndian (codeBytes code)) := by
  constructor
  · intro long
    exact if_neg (Nat.not_le_of_lt long)
  · intro short
    refine ⟨_, if_pos short, ?_⟩
    have empty : (0 : UInt32).toNat < 256 ^ 0 := by decide
    rw [toNat_foldl_shiftLeft_or empty (by omega)]
    simp

end Literal

end JassExpr
