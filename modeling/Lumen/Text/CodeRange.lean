/-!
# Ranges of characters

A class of characters is a list of ranges of code points, both ends included.
-/

namespace Lumen.Text

/-- The first and the last code point of each range. -/
abbrev CodeRanges := List (Nat × Nat)

def CodeRanges.covers (ranges : CodeRanges) (c : Char) : Bool :=
  ranges.any fun r => r.1 ≤ c.toNat && c.toNat ≤ r.2

end Lumen.Text
