/-!
# White space

The twenty-five characters with the property White_Space, as ranges.
-/

namespace WorldClock.Text

/-- The ranges of the white-space characters, in ascending order. -/
def blankRanges : List (Nat × Nat) :=
  [(0x09, 0x0D), (0x20, 0x20), (0x85, 0x85), (0xA0, 0xA0), (0x1680, 0x1680), (0x2000, 0x200A),
    (0x2028, 0x2029), (0x202F, 0x202F), (0x205F, 0x205F), (0x3000, 0x3000)]

def isBlank (c : Char) : Bool :=
  blankRanges.any fun (low, high) => decide (low ≤ c.toNat ∧ c.toNat ≤ high)

def dropBlanks (cs : List Char) : List Char :=
  cs.dropWhile isBlank

end WorldClock.Text
