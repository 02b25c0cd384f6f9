import Clausal.Report

/-!
# Decimal numerals

Reading of a natural number that must not exceed a limit.  A numeral is one or
more of the ten ASCII digits, after at most one plus sign.  Any number of leading
zeros is allowed.  The characters are taken from left to right and the first
problem met is the one reported, so a foreign character behind the digit that
exceeds the limit is never reached.
-/

namespace Clausal

namespace Numeral

/-- Why a text is no numeral within the limit. -/
inductive Fault where
  /-- There is nothing to read. -/
  | empty
  /-- A character is not a digit, or a sign stands alone. -/
  | invalidDigit
  /-- The number exceeds the limit. -/
  | tooLarge
deriving DecidableEq, Repr

/-- What is said of a fault. -/
def Fault.message : Fault → String
  | .empty => "cannot parse integer from empty string"
  | .invalidDigit => "invalid digit found in string"
  | .tooLarge => "number too large to fit in target type"

/-- A fault has no further cause. -/
def Fault.report (f : Fault) : Report := ⟨f.message, []⟩

/-- The largest number of 64 bits. -/
def maxWord : Nat := 18446744073709551615

/-- The value of an ASCII digit. -/
def digit? (c : Char) : Option Nat :=
  if '0' ≤ c ∧ c ≤ '9' then some (c.toNat - '0'.toNat) else none

/-- Read digits behind a number that is already there. -/
def readFrom (limit : Nat) : Nat → List Char → Except Fault Nat
  | n, [] => .ok n
  | n, c :: rest =>
      match digit? c with
      | none => .error .invalidDigit
      | some d =>
          if 10 * n + d ≤ limit then readFrom limit (10 * n + d) rest else .error .tooLarge

/-- Read a numeral of at most `limit`. -/
def read (limit : Nat) : List Char → Except Fault Nat
  | [] => .error .empty
  | ['+'] => .error .invalidDigit
  | '+' :: rest => readFrom limit 0 rest
  | digits => readFrom limit 0 digits

/-- The decimal digits of a number. -/
def digits (n : Nat) : List Char := Nat.toDigits 10 n

end Numeral

end Clausal
