import Calculator.Lexer
import Calculator.Number.Shortest

/-!
# What can be wrong with an expression

An error is a cause with its data; its wording is in one function. Most causes concern the shape of
an expression. A *domain* error is a number that is not finite, and an *internal* error a broken
promise inside the evaluation, such as a number token whose text is no number.
-/

namespace Calculator

/-- A number that must be finite, and how it came about. -/
inductive Computation where
  | literal (text : String)
  | application (name : String) (argument : Float)
  | combination (left : Float) (symbol : Char) (right : Float)
deriving DecidableEq

/-- The text of a computation as it stands in an expression. -/
def Computation.text : Computation → String
  | literal text => text
  | application name argument => name ++ "(" ++ Number.text argument ++ ")"
  | combination left symbol right =>
    Number.text left ++ " " ++ symbol.toString ++ " " ++ Number.text right

/-- Why an expression has no value. -/
inductive EvalError where
  | unmatchedParentheses
  | emptyGroup
  /-- The text of the cell where an operand should begin, or nothing at the end of input. -/
  | missingOperand (found : Option String)
  | missingArgument (function : String)
  | unexpectedToken (found : String)
  | domain (what : Computation)
  | internal (what : String)
deriving DecidableEq

namespace EvalError

/-! ## Broken promises -/

/-- A number token whose text is no number literal. -/
def badLiteral (literal : String) : EvalError := internal ("bad number literal '" ++ literal ++ "'")

/-- A parenthesis that was not paired. -/
def unlinkedParenthesis (text : String) : EvalError :=
  internal ("unlinked parenthesis '" ++ text ++ "'")

/-- A function name that is not known. -/
def unknownFunction (name : String) : EvalError := internal ("unknown function '" ++ name ++ "'")

/-- An operator that is not known. -/
def unknownOperator (symbol : Char) : EvalError :=
  internal ("unknown operator '" ++ symbol.toString ++ "'")

/-- Something else where a number must stand. -/
def expectedNumber (found : String) : EvalError :=
  internal ("expected a number, found '" ++ found ++ "'")

/-- Something else where an operator must stand. -/
def expectedOperator (found : String) : EvalError :=
  internal ("expected an operator, found '" ++ found ++ "'")

/-- Something else where a group must open. -/
def groupStartsAt (found : String) : EvalError := internal ("group starts at '" ++ found ++ "'")

/-- A group that ends without its parenthesis. -/
def unclosedGroup : EvalError := internal "group without closing parenthesis"

/-- A prepared sequence without cells. -/
def missingOuterGroup : EvalError := internal "missing outer group"

/-- Cells that are left beside the result. -/
def leftoverCells (text : String) : EvalError := internal ("leftover cells: " ++ text)

/-! ## Wording -/

/-- The detail that an error carries, as text. -/
def detail? : EvalError → Option String
  | unmatchedParentheses | emptyGroup => none
  | missingOperand (some found) => some ("'" ++ found ++ "'")
  | missingOperand none => some "end of input"
  | missingArgument function => some function
  | unexpectedToken found => some found
  | domain what => some what.text
  | internal what => some what

/-- The text of an error. -/
def message (e : EvalError) : String :=
  let detail := e.detail?.getD ""
  match e with
  | unmatchedParentheses => "unmatched parentheses"
  | emptyGroup => "empty expression"
  | missingOperand _ => "missing operand before " ++ detail
  | missingArgument _ => "function '" ++ detail ++ "' needs a parenthesized argument"
  | unexpectedToken _ => "unexpected '" ++ detail ++ "'"
  | domain _ => detail ++ " is not a finite number"
  | internal _ => "internal error: " ++ detail

end EvalError

/-- Why a text has no value: it has no tokens, or its tokens have no value. -/
inductive Error where
  | lex (cause : LexError)
  | eval (cause : EvalError)
deriving DecidableEq

/-- The text of an error. -/
def Error.message : Error → String
  | lex cause => cause.message
  | eval cause => cause.message

end Calculator
