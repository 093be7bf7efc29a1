/-!
# Integers in a radix

Integer literals are written in octal, decimal or hexadecimal digits. A digit sequence has its
positional value, and reading a number refuses every value outside of the signed 64-bit range.
-/

namespace JassExpr

/-- The radices in which integer literals can be written. -/
inductive Radix where
  | octal
  | decimal
  | hexadecimal
deriving DecidableEq

namespace Radix

def base : Radix → Nat
  | octal => 8
  | decimal => 10
  | hexadecimal => 16

/-- The value of an ASCII digit or letter as a digit, where letters follow nine in either case. -/
def alphanumericValue? (character : Char) : Option Nat :=
  if character.isDigit then some (character.toNat - '0'.toNat)
  else if character.isLower then some (character.toNat - 'a'.toNat + 10)
  else if character.isUpper then some (character.toNat - 'A'.toNat + 10)
  else none

def digit? (radix : Radix) (character : Char) : Option Nat :=
  (alphanumericValue? character).filter (· < radix.base)

def isDigit (radix : Radix) (character : Char) : Bool :=
  (radix.digit? character).isSome

/-- The positional value of digits that follow a value already read. -/
def valueFrom? (radix : Radix) (value : Nat) : List Char → Option Nat
  | [] => some value
  | character :: rest =>
      (radix.digit? character).bind fun digit =>
        radix.valueFrom? (value * radix.base + digit) rest

/-- The positional value of at least one digit and nothing else. -/
def value? (radix : Radix) : List Char → Option Nat
  | [] => none
  | digits => radix.valueFrom? 0 digits

/-- A number that fits into 64 bits with a sign. -/
def signed64? (number : Int) : Option Int :=
  if -Int.pow 2 63 ≤ number ∧ number < Int.pow 2 63 then some number else none

/-- The integer that a text stands for: an optional sign and at least one digit, with a value in
the signed 64-bit range. -/
def readInteger? (radix : Radix) : List Char → Option Int
  | '+' :: digits => (radix.value? digits).bind fun value => signed64? value
  | '-' :: digits => (radix.value? digits).bind fun value => signed64? (-value)
  | digits => (radix.value? digits).bind fun value => signed64? value

end Radix

end JassExpr
