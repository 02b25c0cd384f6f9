import Clausal.Random.Source

/-!
# The ChaCha generator

The stream of the ChaCha block function with twelve rounds, read as 32-bit words.  A
block has the four words of the constant, eight of the key, two of the block's number
and two of zeros.  The key comes from a seed of 64 bits by eight steps of a linear
congruential generator with permuted output.
-/

namespace Clausal

namespace Random

namespace ChaCha

/-- Sixteen words. -/
abbrev Block : Type := Vector UInt32 16

/-- The word rotated to the left. -/
def rotateLeft (w n : UInt32) : UInt32 := (w <<< n) ||| (w >>> (32 - n))

/-- The word rotated to the right. -/
def rotateRight (w n : UInt32) : UInt32 := (w >>> n) ||| (w <<< (32 - n))

/-- Add the second word to the first, then mix the sum into the third and rotate that. -/
def mix (s : Block) (a b c : Fin 16) (n : UInt32) : Block :=
  let s := s.set a (s[a] + s[b])
  s.set c (rotateLeft (s[c] ^^^ s[a]) n)

/-- A quarter round on four words of a block. -/
def quarterRound (s : Block) (a b c d : Fin 16) : Block :=
  mix (mix (mix (mix s a b d 16) c d b 12) a b d 8) c d b 7

/-- A round on the columns and a round on the diagonals. -/
def doubleRound (s : Block) : Block :=
  let s := quarterRound s 0 4 8 12
  let s := quarterRound s 1 5 9 13
  let s := quarterRound s 2 6 10 14
  let s := quarterRound s 3 7 11 15
  let s := quarterRound s 0 5 10 15
  let s := quarterRound s 1 6 11 12
  let s := quarterRound s 2 7 8 13
  quarterRound s 3 4 9 14

/-- So many double rounds. -/
def doubleRounds : Nat → Block → Block
  | 0, s => s
  | n + 1, s => doubleRounds n (doubleRound s)

/-- The four words of the constant. -/
def constants : Vector UInt32 4 := #v[0x61707865, 0x3320646E, 0x79622D32, 0x6B206574]

/-- The words that block `n` starts from. -/
def initial (key : Vector UInt32 8) (n : Nat) : Block :=
  constants ++ key ++ #v[UInt32.ofNat n, UInt32.ofNat (n / 4294967296), 0, 0]

/-- Block `n` of the stream. -/
def block (key : Vector UInt32 8) (n : Nat) : Block :=
  let start := initial key n
  Vector.zipWith (· + ·) (doubleRounds 6 start) start

/-- The stream of a key. -/
def stream (key : Vector UInt32 8) : Source :=
  ⟨fun i => (block key (i / 16))[Fin.ofNat 16 i]⟩

/-- One step of the generator that makes keys. -/
def advance (s : UInt64) : UInt64 := s * 6364136223846793005 + 11634580027462260723

/-- The word that a state of that generator puts out. -/
def output (s : UInt64) : UInt32 :=
  rotateRight (((s >>> 18) ^^^ s) >>> 27).toUInt32 (s >>> 59).toUInt32

/-- The words of the generator after a state. -/
def outputs : Nat → UInt64 → List UInt32
  | 0, _ => []
  | n + 1, s => output (advance s) :: outputs n (advance s)

theorem length_outputs (n : Nat) : ∀ s, (outputs n s).length = n := by
  induction n with
  | zero => exact fun _ => rfl
  | succ n ih => exact fun s => congrArg (· + 1) (ih _)

/-- The key of a seed. -/
def keyOfSeed (seed : UInt64) : Vector UInt32 8 := ⟨(outputs 8 seed).toArray, by
  rw [List.size_toArray, length_outputs]⟩

end ChaCha

/-- The source of a seed. -/
def Source.ofSeed (seed : UInt64) : Source := ChaCha.stream (ChaCha.keyOfSeed seed)

end Random

end Clausal
