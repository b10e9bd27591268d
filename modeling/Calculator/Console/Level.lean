import Calculator.Log.Level

/-!
# Names of levels

How a level of the log is shown and asked for.

## How a level is asked for

By name in any letter case, or by a number from `1` for errors to `5` for everything. The name `off`
and the number `0` ask for nothing. A number may have a plus sign and leading zeros. The empty text
asks for errors, and any other text is no level.
-/

namespace Calculator.Console

open Log (Level)

/-- The name of a level, in lower case. -/
def levelName : Level → String
  | .error => "error"
  | .warn => "warn"
  | .info => "info"
  | .debug => "debug"
  | .trace => "trace"

/-- The name of a level as it stands in the log. -/
def levelLabel (level : Level) : String := (levelName level).map Char.toUpper

/-- A number in decimal digits, with or without a plus sign. -/
def naturalOfText? (text : List Char) : Option Nat :=
  let digits := match text with
    | '+' :: rest => rest
    | rest => rest
  if digits ≠ [] ∧ digits.all Char.isDigit then some (Nat.ofDigitChars 10 digits 0) else none

/-- The least important level that a text asks for, where there may be none of which it asks. -/
def levelOf? (text : String) : Option (Option Level) :=
  let levels := [Level.error, .warn, .info, .debug, .trace]
  match naturalOfText? text.toList with
  | some 0 => some none
  | some (n + 1) => levels[n]?.map some
  | none =>
    if text = "" then some (some .error)
    else if text.map Char.toLower = "off" then some none
    else (levels.find? fun level ↦ levelName level = text.map Char.toLower).map some

end Calculator.Console
