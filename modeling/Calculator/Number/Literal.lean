import Calculator.Number.Decimal

/-!
# Number literals

The text of a number: an optional sign, then either digits with at most one point and an optional
exponent, or one of the words `inf`, `infinity` and `nan` in any letter case. At least one digit
must stand before or after the point. Neither blanks nor digit separators are allowed.

The value is the double nearest to the written decimal, for any number of digits and any size of
exponent.
-/

namespace Calculator

namespace Number

/-- A leading sign, `true` for minus, and what follows it. -/
def splitSign : List Char → Bool × List Char
  | '-' :: rest => (true, rest)
  | '+' :: rest => (false, rest)
  | rest => (false, rest)

/-- The value of what stands behind the digits: nothing, or an exponent marker, an optional sign
and at least one digit. -/
def exponent? : List Char → Option Int
  | [] => some 0
  | marker :: rest =>
    let (negative, digits) := splitSign rest
    if (marker = 'e' ∨ marker = 'E') ∧ digits ≠ [] ∧ digits.all Char.isDigit then
      let size : Int := Nat.ofDigitChars 10 digits 0
      some (if negative then -size else size)
    else none

/-- The digits behind a point, and what follows them. Without a point there are none. -/
def splitFraction : List Char → List Char × List Char
  | '.' :: rest => rest.span Char.isDigit
  | rest => ([], rest)

/-- The decimal that an unsigned literal writes. -/
def decimal? (literal : List Char) : Option Decimal :=
  let (whole, rest) := literal.span Char.isDigit
  let (fraction, rest) := splitFraction rest
  if whole = [] ∧ fraction = [] then none
  else (exponent? rest).map fun e ↦
    ⟨Nat.ofDigitChars 10 (whole ++ fraction) 0, e - fraction.length⟩

/-- The magnitude of the one value that stands for all that are not numbers. -/
def notANumber : Nat := Magnitude.infinite + (1 <<< 51)

/-- The magnitude that an unsigned literal names, by its digits or by a word. -/
def magnitude? (literal : List Char) : Option Nat :=
  match decimal? literal with
  | some d => some d.magnitude
  | none =>
    let word := String.ofList (literal.map Char.toLower)
    if word = "inf" ∨ word = "infinity" then some Magnitude.infinite
    else if word = "nan" then some notANumber
    else none

/-- The double that a literal names; `none` for a text that is no literal. -/
def read? (literal : String) : Option Float :=
  let (negative, rest) := splitSign literal.toList
  (magnitude? rest).map (ofMagnitude negative)

end Number

end Calculator
