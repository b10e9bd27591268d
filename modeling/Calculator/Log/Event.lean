import Calculator.Error
import Calculator.Log.Level
import Calculator.Sequence.Basic

/-!
# Events

What is worth a line in the log: each token, each step that changes the expression being evaluated,
and how an evaluation begins and ends. An event is data; its place in the log, a level and the name
of the part it comes from, and its text are functions of it.
-/

namespace Calculator.Log

/-- Something worth a line in the log. -/
inductive Event where
  /-- A token was read. -/
  | token (token : Token)
  /-- A text has no further token. -/
  | lexError (cause : LexError)
  /-- The reduction of a prepared sequence begins. -/
  | reducing (expression : Sequence)
  /-- A run of minus signs became a factor in front of its operand. -/
  | unaryMinusRun (sign : Float)
  /-- An even run of minus signs between two operands became an addition. -/
  | binaryMinusRun
  /-- A function was applied. -/
  | application (name : String) (argument value : Float)
  /-- Two numbers were combined. -/
  | combination (left : Float) (symbol : Char) (right value : Float)
  /-- The reduction ended with a value. -/
  | result (value : Float)
  /-- An expression has no value. -/
  | failed (expression : String) (message : String)
  /-- There are no lines of earlier sessions in a file. -/
  | noHistory (file : String)
deriving DecidableEq

namespace Event

/-- How important an event is. -/
def level : Event → Level
  | token _ | lexError _ | unaryMinusRun _ | binaryMinusRun | application _ _ _
  | combination _ _ _ _ => .trace
  | reducing _ | result _ | failed _ _ => .debug
  | noHistory _ => .info

/-- The part of the program that an event comes from. -/
def target : Event → String
  | token _ | lexError _ => "mathlex::math_tokenizer"
  | reducing _ | unaryMinusRun _ | binaryMinusRun | application _ _ _ | combination _ _ _ _
  | result _ => "scieval::reduce"
  | failed _ _ | noHistory _ => "scieval"

/-- The text of an event. -/
def message : Event → String
  | token t => "token " ++ t.describe
  | lexError cause => "lex error: " ++ cause.message
  | reducing expression => "reducing " ++ expression.text
  | unaryMinusRun sign => "unary minus run -> " ++ Number.text sign ++ " *"
  | binaryMinusRun => "binary minus run -> +"
  | application name argument value =>
    (Computation.application name argument).text ++ " = " ++ Number.text value
  | combination left symbol right value =>
    (Computation.combination left symbol right).text ++ " = " ++ Number.text value
  | result value => "result " ++ Number.text value
  | failed expression message => "eval '" ++ expression ++ "' failed: " ++ message
  | noHistory file => "no history at " ++ file

/-- The event of what a lexer answers. -/
def ofLexItem : LexItem → Event
  | .ok t => token t
  | .error cause => lexError cause

end Event

end Calculator.Log
