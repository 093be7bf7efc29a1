import JassExpr.Number.Radix

/-!
# Reading double-precision numbers

A real literal stands for the double-precision number nearest to its decimal value. The value is
held as a quotient of natural numbers, so that rounding is exact: of two neighbours at the same
distance the one with the even significand is taken, what is too large becomes infinite, and what
is too small becomes zero.
-/

namespace JassExpr

/-- A double-precision number, given by the 64 bits of its interchange form. -/
structure Binary64 where
  bits : UInt64
deriving DecidableEq

namespace Binary64

/-- Number of bits of a significand that are stored. -/
def fractionWidth : Nat :=
  52

/-- The exponent of the last place of the numbers nearest to zero. -/
def leastExponent : Int :=
  -1074

/-- The bits of positive infinity, which follow those of the largest finite number. -/
def infinityBits : Nat :=
  0x7ff0000000000000

/-- The bits that stand for what is not a number. -/
def notANumberBits : Nat :=
  0x7ff8000000000000

/-- The number with a sign and the bits below it. -/
def ofMagnitude (negative : Bool) (magnitude : Nat) : Binary64 :=
  ⟨UInt64.ofNat (if negative then Nat.pow 2 63 + magnitude else magnitude)⟩

/-- Whether the bits stand for no number: all ones in the exponent and a fraction that is not
zero. -/
def isNotANumber (number : Binary64) : Bool :=
  infinityBits < number.bits.toNat % Nat.pow 2 63

/-- The natural number nearest to a quotient, and the even one of two that are equally near. -/
def roundQuotient (numerator denominator : Nat) : Nat :=
  let quotient := numerator / denominator
  let twiceRemainder := 2 * (numerator % denominator)
  if twiceRemainder < denominator then quotient
  else if denominator < twiceRemainder then quotient + 1
  else quotient + quotient % 2

/-- The exponent of the largest power of two that is not above a positive quotient. -/
def binaryExponent (numerator denominator : Nat) : Int :=
  let estimate : Int := (Nat.log2 numerator : Int) - Nat.log2 denominator
  if denominator * Nat.pow 2 estimate.toNat ≤ numerator * Nat.pow 2 (-estimate).toNat then
    estimate
  else
    estimate - 1

/-- The bits of the number nearest to a positive quotient. The significand, counted in units of
its last place, is added to the exponent field, into which it carries when rounding up reaches
the next power of two. -/
def magnitudeOfQuotient (numerator denominator : Nat) : Nat :=
  let unit := max (binaryExponent numerator denominator - fractionWidth) leastExponent
  let significand :=
    roundQuotient (numerator * Nat.pow 2 (-unit).toNat) (denominator * Nat.pow 2 unit.toNat)
  min ((unit - leastExponent).toNat * Nat.pow 2 fractionWidth + significand) infinityBits

/-- The bits of the number nearest to `significand * 10 ^ scale`, where the significand has the
given number of decimal digits. Values of a size that no finite number reaches are decided without
computing their powers of ten. -/
def magnitudeOfDecimal (significand digitCount : Nat) (scale : Int) : Nat :=
  if significand = 0 then 0
  else if 310 < digitCount + scale then infinityBits
  else if digitCount + scale < -330 then 0
  else magnitudeOfQuotient (significand * Nat.pow 10 scale.toNat) (Nat.pow 10 (-scale).toNat)

/-- The exponent of a decimal number: nothing, or the letter, an optional sign and digits. -/
def readExponent? : List Char → Option Int
  | [] => some 0
  | letter :: rest =>
      if letter.toLower = 'e' then
        match rest with
        | '+' :: digits => (Radix.decimal.value? digits).map Int.ofNat
        | '-' :: digits => (Radix.decimal.value? digits).map fun value => -(value : Int)
        | digits => (Radix.decimal.value? digits).map Int.ofNat
      else
        none

/-- The digits after a decimal point, if the text begins with one, and what follows. -/
def splitFraction : List Char → List Char × List Char
  | '.' :: rest => (rest.takeWhile Char.isDigit, rest.dropWhile Char.isDigit)
  | rest => ([], rest)

/-- The bits of an unsigned decimal number: digits with an optional point among them, at least
one on one of its sides, and an optional exponent. -/
def readDecimal? (text : List Char) : Option Nat :=
  let whole := text.takeWhile Char.isDigit
  let (fraction, rest) := splitFraction (text.dropWhile Char.isDigit)
  let digits := whole ++ fraction
  (Radix.decimal.value? digits).bind fun significand =>
    (readExponent? rest).map fun exponent =>
      magnitudeOfDecimal significand (digits.dropWhile (· == '0')).length
        (exponent - fraction.length)

/-- The bits of an unsigned number, which may be spelled out as infinite or as not a number. -/
def readMagnitude? (text : List Char) : Option Nat :=
  let lowered := text.map Char.toLower
  if lowered = ['i', 'n', 'f'] ∨ lowered = ['i', 'n', 'f', 'i', 'n', 'i', 't', 'y'] then
    some infinityBits
  else if lowered = ['n', 'a', 'n'] then
    some notANumberBits
  else
    readDecimal? text

/-- The number that a text stands for, which may have a sign. -/
def read? : List Char → Option Binary64
  | '+' :: rest => (readMagnitude? rest).map (ofMagnitude false)
  | '-' :: rest => (readMagnitude? rest).map (ofMagnitude true)
  | text => (readMagnitude? text).map (ofMagnitude false)

end Binary64

end JassExpr
