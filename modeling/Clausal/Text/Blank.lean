/-!
# Blank characters

The characters with the Unicode property White_Space: twenty-five of them, in ten
ranges.  Characters that merely look empty, such as the zero-width space U+200B,
are not among them.
-/

namespace Clausal

/-- The first and last code point of every range of blank characters, in order. -/
def blankRanges : List (Nat × Nat) :=
  [(0x9, 0xD), (0x20, 0x20), (0x85, 0x85), (0xA0, 0xA0), (0x1680, 0x1680), (0x2000, 0x200A),
    (0x2028, 0x2029), (0x202F, 0x202F), (0x205F, 0x205F), (0x3000, 0x3000)]

/-- Whether the character is white space. -/
def isBlank (c : Char) : Bool := blankRanges.any fun r => r.1 ≤ c.toNat && c.toNat ≤ r.2

/-- The ranges hold twenty-five characters. -/
example : (blankRanges.map fun r => r.2 - r.1 + 1).sum = 25 := by decide

end Clausal
