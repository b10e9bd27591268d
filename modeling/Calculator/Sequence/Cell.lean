import Calculator.Number.Shortest
import Calculator.Token

/-!
# Cells

What a sequence holds. A prepared sequence has its numbers read and each parenthesis paired with its
partner; before that, a cell is a token as it came.
-/

namespace Calculator

/-- The name of a cell in its sequence. It stays the same while cells around it come and go. -/
abbrev Handle := Nat

/-- One entry of a sequence. -/
inductive Cell where
  | lexeme (token : Token)
  | number (value : Float)
  | operator (symbol : Char)
  | function (name : String)
  /-- The opening parenthesis of the closing one with the given handle. -/
  | opening (partner : Handle)
  /-- The closing parenthesis of the opening one with the given handle. -/
  | closing (partner : Handle)
deriving DecidableEq, Inhabited

/-- The text of a cell as it stands in an expression. -/
def Cell.text : Cell → String
  | .lexeme token => token.text
  | .number value => Number.text value
  | .operator symbol => symbol.toString
  | .function name => name
  | .opening _ => "("
  | .closing _ => ")"

end Calculator
