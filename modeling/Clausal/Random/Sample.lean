import Clausal.Random.Source

/-!
# Coins, ranges and samples

A number of a range is drawn without bias: a word is scaled to the range, and words
that would favour some numbers are skipped.  A sample is a list of distinct numbers
below a bound, in random order.  There are three ways to draw one, for few numbers,
for many of few and for many of very many.
-/

namespace Clausal

namespace Random

/-- Toss a fair coin. -/
def coin (s : Source) : StateM Nat Bool := do
  return (← nextPair s) < 9223372036854775808

/-- A word scaled to a range of so many numbers: the number, and what is cut off. -/
def scale (w : UInt32) (count : Nat) : Nat × Nat :=
  (w.toNat * count / 4294967296, w.toNat * count % 4294967296)

/-- The largest cut at which a word is accepted for a range of so many numbers.  It is
one less than the greatest product of the count and a power of two below `2 ^ 32`. -/
def zone (count : Nat) : Nat := count <<< (31 - count.log2) - 1

/-- Draw a number from `low` to `high`. -/
def between (s : Source) (low high : Nat) : Draw Nat :=
  let count := high - low + 1
  firstAccepted s fun w =>
    let (n, cut) := scale w count
    if cut ≤ zone count then some (low + n) else none

/-! ### Few numbers -/

/-- Put a number in front of the first occurrence of another. -/
def putBefore (old new : Nat) : List Nat → List Nat
  | [] => []
  | n :: rest => if n = old then new :: n :: rest else n :: putBefore old new rest

/-- Take in a number `t` drawn from those up to `j`: `j` itself stands in for a number
that is already there, and comes in front of it if order is kept. -/
def takeIn (keepsOrder : Bool) (chosen : List Nat) (t j : Nat) : List Nat :=
  if chosen.contains t then if keepsOrder then putBefore t j chosen else chosen ++ [j]
  else chosen ++ [t]

/-- Exchange two elements of an array. -/
def exchange (a : Array Nat) (i j : Nat) : Array Nat := a.swapIfInBounds i j

/-- Shuffle the first `n + 1` elements, from the last of them down. -/
def shuffle (s : Source) : Nat → Array Nat → Draw (Array Nat)
  | 0, a => return a
  | n + 1, a => do shuffle s n (exchange a (n + 1) (← between s 0 (n + 1)))

/-- Draw by taking in one number for each of the last `amount` bounds below `length`.
From fifty numbers on the order is made random by a shuffle at the end. -/
def sampleFew (s : Source) (length amount : Nat) : Draw (List Nat) := do
  let keepsOrder := decide (amount < 50)
  let chosen ← (List.range' (length - amount) amount).foldlM (fun chosen j => do
    return takeIn keepsOrder chosen (← between s 0 j) j) []
  if keepsOrder then return chosen
  else return (← shuffle s (amount - 1) chosen.toArray).toList

/-! ### Many numbers -/

/-- Draw by shuffling the front of the list of all numbers below `length`. -/
def sampleInPlace (s : Source) (length amount : Nat) : Draw (List Nat) := do
  let all ← (List.range amount).foldlM (fun a i => do
    return exchange a i (← between s i (length - 1))) (Array.range length)
  return all.toList.take amount

/-- The largest cut at which a word is accepted for a number below `length`. -/
def fullZone (length : Nat) : Nat := 4294967295 - (4294967296 - length) % length

/-- Draw a number below `length` that is not among those chosen. -/
def fresh (s : Source) (length : Nat) (chosen : List Nat) : Draw Nat :=
  firstAccepted s fun w =>
    let (n, cut) := scale w length
    if cut ≤ fullZone length ∧ ¬ chosen.contains n then some n else none

/-- Draw number after number, skipping those already chosen. -/
def sampleFresh (s : Source) (length amount : Nat) : Draw (List Nat) := do
  let newestFirst ← (List.range amount).foldlM (fun chosen _ => do
    return (← fresh s length chosen) :: chosen) []
  return newestFirst.reverse

/-! ### The choice among them -/

/-- A way to draw a sample. -/
inductive Method where
  /-- Take in one number for each bound. -/
  | few
  /-- Shuffle the front of all numbers. -/
  | inPlace
  /-- Skip what was drawn before. -/
  | fresh
deriving DecidableEq, Repr

/-- Whether the bound is small, which decides on the constants of the estimates. -/
def isSmall (length : Nat) : Bool := length < 500000

/-- The cheapest way to draw `amount` of the numbers below `length`, by estimates in
single precision. -/
def Method.choose (length amount : Nat) : Method :=
  let l := (UInt32.ofNat length).toFloat32
  let a := (UInt32.ofNat amount).toFloat32
  if amount < 163 then
    let (linear, constant) : Float32 × Float32 :=
      if isSmall length then (1.6, 10.0) else (8.0 / 45.0, 70.0 / 9.0)
    if 11 < amount ∧ l < (constant + linear * a) * a then .inPlace else .few
  else
    let factor : Float32 := if isSmall length then 270.0 else 330.0 / 9.0
    if l < factor * a then .inPlace else .fresh

/-- Draw `amount` distinct numbers below `length`. -/
def sample (s : Source) (length amount : Nat) : Draw (List Nat) :=
  match Method.choose length amount with
  | .few => sampleFew s length amount
  | .inPlace => sampleInPlace s length amount
  | .fresh => sampleFresh s length amount

end Random

end Clausal
