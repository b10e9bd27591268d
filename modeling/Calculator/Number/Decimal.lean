import Calculator.Number.Magnitude

/-!
# Decimals

A decimal is a whole number times a power of ten. This module rounds a decimal to the nearest
double and lays its digits out positionally, so that a number is never shown with an exponent.

## Exponents of any size

A literal such as `1e999999999` must be read without computing that power of ten. Two bounds settle
the far cases before any arithmetic: from `10³¹⁰` on everything is infinite, and a positive
decimal below `2⁻¹⁰⁷⁵` is zero. Between them the powers stay within the size of the coefficient
and a few hundred digits.
-/

namespace Calculator

/-- A power of ten. -/
def tenToThe (exponent : Nat) : Nat := Nat.pow 10 exponent

/-- The number `coefficient` times ten to the `exponent`. -/
structure Decimal where
  coefficient : Nat
  exponent : Int
deriving DecidableEq, Repr, Inhabited

namespace Decimal

/-- The magnitude of the nearest double. -/
def magnitude : Decimal → Nat
  | ⟨coefficient, .ofNat e⟩ =>
    if coefficient = 0 then 0
    else if 310 ≤ e then Magnitude.infinite
    else Magnitude.ofRatio (coefficient * tenToThe e) 1
  | ⟨coefficient, .negSucc e⟩ =>
    if coefficient.log2 + 1076 ≤ 3 * (e + 1) then 0
    else Magnitude.ofRatio coefficient (tenToThe (e + 1))

/-- The same number without trailing zeros in its coefficient; zero gets exponent `0`. -/
def trim (coefficient : Nat) (exponent : Int) : Decimal :=
  if coefficient = 0 then ⟨0, 0⟩
  else if coefficient % 10 = 0 then trim (coefficient / 10) (exponent + 1)
  else ⟨coefficient, exponent⟩
termination_by coefficient

/-- The digits in positional notation: a point only where there is a fraction, and at least one
digit before it. -/
def positional : Decimal → List Char
  | ⟨coefficient, .ofNat e⟩ => Nat.toDigits 10 coefficient ++ List.replicate e '0'
  | ⟨coefficient, .negSucc e⟩ =>
    let digits := Nat.toDigits 10 coefficient
    let padded := List.replicate (e + 2 - digits.length) '0' ++ digits
    let whole := padded.length - (e + 1)
    padded.take whole ++ '.' :: padded.drop whole

end Decimal

end Calculator
