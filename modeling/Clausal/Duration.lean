import Clausal.Numeral

/-!
# Durations in seconds

A duration is a number of nanoseconds.  It is printed in seconds, with six decimals, and what is
printed is a double and not the duration itself.  The whole seconds are a double, and so is the
rest, divided by the nanoseconds of a second.  Their sum is rounded to a double once more.  The
decimals are those of the exact value of that double.

So half a microsecond is printed as `0.000000`: the double next to it is a little smaller.
-/

namespace Clausal

namespace Duration

/-- The seconds of a duration, as a double. -/
def seconds (nanoseconds : Nat) : Float :=
  (nanoseconds / 1000000000).toFloat +
    (nanoseconds % 1000000000).toFloat / (1000000000).toFloat

/-- The whole number nearest to a quotient.  Of two that are equally near it is the even one. -/
def roundDiv (n d : Nat) : Nat :=
  if 2 * (n % d) < d ∨ 2 * (n % d) = d ∧ n / d % 2 = 0 then n / d else n / d + 1

/-- The millionths of a double that is not negative.  One that is not finite, which no duration of
64 bits of seconds is, has none. -/
def millionths (x : Float) : Nat :=
  match x.toModel.unpack with
  | .finite _ mantissa exponent _ =>
      roundDiv (mantissa <<< exponent.toNat * 1000000) (1 <<< (-exponent).toNat)
  | _ => 0

/-- A number of millionths, written with six decimals. -/
def sixDecimals (k : Nat) : String :=
  let decimals := Numeral.digits (k % 1000000)
  let zeros := List.replicate (6 - decimals.length) '0'
  String.ofList (Numeral.digits (k / 1000000) ++ '.' :: (zeros ++ decimals))

/-- The text of a duration. -/
def text (nanoseconds : Nat) : String := sixDecimals (millionths (seconds nanoseconds))

end Duration

end Clausal
