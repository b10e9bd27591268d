import Calculator.Number.Decimal

/-!
# The shortest decimal of a double

A double is shown with as few digits as read back to it. For each number of digits there is a grid
of decimals, and if any point of that grid reads back, so does one of the two neighbours of the
exact value. The first grid with a hit wins; of two hits the nearer one is taken, and of two
equally near the larger.

A candidate is accepted by rounding it and comparing magnitudes, never by a bound computed beside
the reader. That the chosen decimal reads back therefore holds by construction; seventeen digits
always suffice, and the exact decimal stands behind them so that the search needs no proof of it.
-/

namespace Calculator

namespace Decimal

/-- The exact value of a finite magnitude as a quotient of multiples of `10 ^ step`: the largest
grid point not above the value is the floor of the quotient. -/
def gridRatio (b : Nat) (step : Int) : Nat × Nat :=
  (Magnitude.units b * tenToThe (-step).toNat, tenToThe step.toNat <<< 1074)

/-- The decimal exponent of a magnitude's leading digit. The binary exponent times `log₁₀ 2` is
that exponent or one less. -/
def leadingExponent (b : Nat) : Int :=
  let estimate := ((Magnitude.units b).log2 - 1074 : Int) * 30103 / 100000
  let (numerator, denominator) := gridRatio b (estimate + 1)
  if denominator ≤ numerator then estimate + 1 else estimate

/-- The neighbour of a magnitude on the grid of multiples of `10 ^ step` that reads back. -/
def neighbour? (b : Nat) (step : Int) : Option Decimal :=
  let (numerator, denominator) := gridRatio b step
  let below := trim (numerator / denominator) step
  let above := trim (numerator / denominator + 1) step
  if below.magnitude = b then
    if above.magnitude = b ∧ denominator ≤ 2 * (numerator % denominator) then some above
    else some below
  else if above.magnitude = b then some above
  else none

/-- The shortest decimal that reads back to a finite magnitude. -/
def shortest (b : Nat) : Decimal :=
  let leading := leadingExponent b
  match (List.range 17).findSome? fun (n : Nat) ↦ neighbour? b (leading - n) with
  | some d => d
  -- Seventeen digits tell any two doubles apart, so this is for want of a proof only.
  | none => trim (Magnitude.units b * Nat.pow 5 1074) (-1074)

end Decimal

/-! ## The text of a number -/

namespace Number

/-- The text of a double: positional, with the fewest digits that read back. A fraction is shown
only where there is one, zero keeps its sign, and the words for the values that are not finite are
`inf` and `NaN`. -/
def text (x : Float) : String :=
  let b := magnitude x
  if Magnitude.infinite < b then "NaN"
  else
    let unsigned :=
      if b = Magnitude.infinite then "inf" else String.ofList (Decimal.shortest b).positional
    if isNegative x then "-" ++ unsigned else unsigned

end Number

end Calculator
