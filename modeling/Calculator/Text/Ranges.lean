/-!
# Ranges of characters

A property of characters, given by the ranges of code points that have it.
-/

namespace Calculator.Text

/-- A set of characters, by ranges of code points, ends included. -/
abbrev Ranges := List (Nat × Nat)

/-- Whether a character is in one of the ranges. -/
def Ranges.has (ranges : Ranges) (c : Char) : Bool :=
  ranges.any fun (first, last) ↦ first ≤ c.toNat && c.toNat ≤ last

end Calculator.Text
