/-!
# Tokens

The words of an expression. A number keeps its literal text, which is read when the expression is
evaluated; an operator is any character and a function any name, so that a token list is free data
and every check on it belongs to the evaluation.
-/

namespace Calculator

/-- A word of an expression. -/
inductive Token where
  | number (literal : String)
  | operator (symbol : Char)
  | function (name : String)
  | opening
  | closing
deriving DecidableEq, Repr, Inhabited

namespace Token

/-- The text of a token as it stands in an expression. -/
def text : Token → String
  | number literal => literal
  | operator symbol => symbol.toString
  | function name => name
  | opening => "("
  | closing => ")"

/-- The token with its kind, as the log shows it. -/
def describe : Token → String
  | number literal => "Number(\"" ++ literal ++ "\")"
  | operator symbol => "BOp('" ++ symbol.toString ++ "')"
  | function name => "Function(\"" ++ name ++ "\")"
  | opening => "OParen"
  | closing => "CParen"

end Token

end Calculator
