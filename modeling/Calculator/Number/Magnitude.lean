/-!
# Magnitudes of doubles

The 63 bits below the sign of a double, read as one natural number, are its *magnitude*. Zero has
magnitude `0`, the smallest positive double magnitude `1`, infinity the magnitude `infinite`, and
every larger magnitude is not a number.

## One unit for every double

Each finite double is a whole number of the smallest positive double, `2⁻¹⁰⁷⁴`. Counting in that
unit keeps all of the arithmetic in the natural numbers: the double of magnitude `b` is
`significand b <<< scale b` units, and subnormal numbers are those of scale `0` rather than a
case of their own. A significand that rounds up to `2⁵³` needs no case either, because the magnitude
of the next binade is exactly what the formula `scale * 2⁵² + significand` gives.
-/

namespace Calculator

/-- A quotient rounded to the nearest whole number, a half going to the even neighbour. -/
def roundHalfEven (numerator denominator : Nat) : Nat :=
  let quotient := numerator / denominator
  let twice := 2 * (numerator % denominator)
  if twice < denominator then quotient
  else if denominator < twice then quotient + 1
  else quotient + quotient % 2

namespace Magnitude

/-- The magnitude of infinity, and of whatever is too large for a finite double. -/
def infinite : Nat := 0x7FF0000000000000

/-- The power of two that a magnitude's significand is multiplied by, in units of `2⁻¹⁰⁷⁴`. -/
def scale (b : Nat) : Nat := (b >>> 52) - 1

/-- The whole number below `2⁵³` that a finite magnitude scales. -/
def significand (b : Nat) : Nat := b - (scale b <<< 52)

/-- How many units of `2⁻¹⁰⁷⁴` the double of a finite magnitude is. -/
def units (b : Nat) : Nat := significand b <<< scale b

/-- The magnitude of the double nearest to a quotient, a half going to the even neighbour. The
scale is the least one under which the significand fits into 53 bits. -/
def ofRatio (numerator denominator : Nat) : Nat :=
  let units := numerator <<< 1074
  let scale := (units / denominator).log2 - 52
  min infinite ((scale <<< 52) + roundHalfEven units (denominator <<< scale))

end Magnitude

/-! ## Sign and magnitude of a double -/

namespace Number

/-- The value of the sign bit. -/
def signBit : Nat := 1 <<< 63

/-- Whether the sign bit is set, as it is for `-0` too. -/
def isNegative (x : Float) : Bool := signBit ≤ x.toBits.toNat

/-- The bits below the sign. -/
def magnitude (x : Float) : Nat := x.toBits.toNat % signBit

/-- The double with a given sign and magnitude. -/
def ofMagnitude (negative : Bool) (b : Nat) : Float :=
  Float.ofBits (UInt64.ofNat (if negative then signBit + b else b))

end Number

end Calculator
