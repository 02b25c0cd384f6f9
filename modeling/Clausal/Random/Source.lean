/-!
# Sources of random words

A source is a long sequence of 32-bit words.  Numbers are drawn from it one after the
other, and all that a draw changes is the position of the next word.  A draw that has
to look for an acceptable word gives up at the end of the source, so every draw ends.
-/

namespace Clausal

namespace Random

/-- A sequence of 32-bit words. -/
structure Source where
  /-- The word at a position. -/
  word : Nat → UInt32

/-- The number of words of a source: `2 ^ 64` blocks of sixteen. -/
def Source.length : Nat := 18446744073709551616 * 16

/-- The source of given words, with zeros behind them. -/
def Source.ofWords (words : Array UInt32) : Source := ⟨fun i => words.getD i 0⟩

/-- A draw: from the position of the next word to a result and the position after it,
or to nothing at the end of the source. -/
abbrev Draw (α : Type) : Type := StateT Nat Option α

variable {α : Type}

/-- Draw one word. -/
def nextWord (s : Source) : StateM Nat UInt32 := fun p => (s.word p, p + 1)

/-- Draw a number of 64 bits, the low word first. -/
def nextPair (s : Source) : StateM Nat Nat := do
  let low ← nextWord s
  let high ← nextWord s
  return low.toNat + 4294967296 * high.toNat

/-- Draw words until one is accepted. -/
def firstAccepted (s : Source) (accept : UInt32 → Option α) (p : Nat) : Option (α × Nat) :=
  if p < Source.length then
    match accept (s.word p) with
    | some a => some (a, p + 1)
    | none => firstAccepted s accept (p + 1)
  else none
termination_by Source.length - p

/-- What is drawn is what some word is accepted as. -/
theorem firstAccepted_accept {s : Source} {accept : UInt32 → Option α} {p q : Nat} {a : α}
    (h : firstAccepted s accept p = some (a, q)) : ∃ w, accept w = some a := by
  induction p using firstAccepted.induct s accept with
  | case1 p hp b hb =>
      rw [firstAccepted, if_pos hp, hb] at h
      cases h
      exact ⟨_, hb⟩
  | case2 p hp hb ih =>
      rw [firstAccepted, if_pos hp, hb] at h
      exact ih h
  | case3 p hp =>
      rw [firstAccepted, if_neg hp] at h
      cases h

end Random

end Clausal
