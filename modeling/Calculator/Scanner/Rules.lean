import Calculator.MathFunction
import Calculator.Operator
import Calculator.Scanner.Basic

/-!
# The rules for tokens

Each rule reads one token from a scanner whose view is empty. A rule that succeeds forgets exactly
the characters of its token; a rule that fails leaves the cursor where it found it.

## Where a number ends

A number is digits, then maybe a point and digits, then maybe an exponent marker, a sign and digits.
A point without digits behind it is no part of the number, and ends it at once: no exponent is
looked for. An exponent marker without digits behind it is no part of the number either.

## Where a function name ends

Letters are read up to the length of the longest name, and the longest name among what they spell so
far wins. What stands behind the name does not matter, so `tangent` begins with `tan`.
-/

namespace Calculator.Scanner

/-! ## Blanks and text -/

/-- The characters that may stand between tokens. -/
def isBlank (c : Char) : Bool := c = ' ' ∨ c = '\n' ∨ c = '\r' ∨ c = '\t'

/-- Forgets the view and returns it as text. -/
def extractText : Scan Char String := fun s ↦
  let (characters, s) := extract s
  (String.ofList characters, s)

/-- Steps over blanks and forgets them. -/
def ignoreBlanks : Scan Char Unit := fun s ↦ ignore (skipWhile isBlank false s).2

/-! ## Numbers -/

/-- Steps over digits; tells whether there were any. -/
def skipDigits : Scan Char Bool := skipWhile Char.isDigit false

/-- Steps over a point with digits behind it. A point without digits is not stepped over, and is the
only reason to answer `false`. -/
def skipFraction : Scan Char Bool := fun s ↦
  let start := s.cursor
  match accept '.' s with
  | (none, s) => (true, s)
  | (some _, s) =>
    match skipDigits s with
    | (true, s) => (true, s)
    | (false, s) => (false, s.moveTo start)

/-- Steps over an exponent, if there is a whole one. -/
def skipExponent : Scan Char Unit := fun s ↦
  let start := s.cursor
  match acceptAny ['e', 'E'] s with
  | (none, s) => ((), s)
  | (some _, s) =>
    match skipDigits (acceptAny ['+', '-'] s).2 with
    | (true, s) => ((), s)
    | (false, s) => ((), s.moveTo start)

/-- The text of a number. -/
def scanNumber : Scan Char (Option String) := fun s ↦
  match skipDigits s with
  | (false, s) => (none, s)
  | (true, s) =>
    let (text, s) := extractText <|
      match skipFraction s with
      | (true, s) => (skipExponent s).2
      | (false, s) => s
    (some text, s)

/-! ## Single characters -/

/-- One of the given characters, as a token of its own. -/
def scanCharacter (characters : List Char) : Scan Char (Option Char) := fun s ↦
  match acceptAny characters s with
  | (some c, s) => (some c, (ignore s).2)
  | (none, s) => (none, s)

/-- A parenthesis. -/
def scanParenthesis : Scan Char (Option Char) := scanCharacter ['(', ')']

/-- The character of an operator. -/
def scanOperator : Scan Char (Option Char) := scanCharacter (Operator.all.map Operator.symbol)

/-! ## Function names -/

/-- Reads at most `limit` letters behind the lower-case letters `window`. The result is the place
behind the longest function name so far and that name. -/
def growWindow : (limit : Nat) → (window : List Char) → (found : Option (Nat × String)) →
    Scanner Char → Option (Nat × String) × Scanner Char
  | 0, _, found, s => (found, s)
  | limit + 1, window, found, s =>
    match next s with
    | (some c, s) =>
      if c.isAlpha then
        let window := window ++ [c.toLower]
        let name := String.ofList window
        let longest := if name ∈ MathFunction.names then some (s.cursor, name) else found
        growWindow limit window longest s
      else (found, s)
    | (none, s) => (found, s)

/-- The name of a function, in lower case. -/
def scanFunction : Scan Char (Option String) := fun s ↦
  let start := s.cursor
  match growWindow MathFunction.longestName [] none s with
  | (some (place, name), s) => (some name, (ignore (s.moveTo place)).2)
  | (none, s) => (none, s.moveTo start)

end Calculator.Scanner
