import HeaderSync.Text.Basic

/-!
# Ranges of code points

The classes of characters that are no plain comparison are given as lists of ranges of code points;
`inRanges` decides membership.
-/

namespace HeaderSync.Text

def isAscii (c : Char) : Bool :=
  c.toNat < 128

/-- The code point of `c` lies in one of the closed `ranges`. -/
def inRanges (ranges : List (Nat × Nat)) (c : Char) : Bool :=
  ranges.any fun range => range.1 ≤ c.toNat && c.toNat ≤ range.2

end HeaderSync.Text
