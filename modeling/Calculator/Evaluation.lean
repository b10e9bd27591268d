import Calculator.Reduction.Task
import Calculator.Sequence.Prepared

/-!
# Evaluation

The value of an expression, given as tokens or as text, and the log of how it came about.
-/

namespace Calculator

open Reduction

/-! ## Tokens -/

/-- How deep the tasks of reducing a sequence may be nested. -/
def depthBound (s : Sequence) : Nat := 8 * s.slots.size

/-- Reduces a prepared sequence to one number. -/
def reduce (s : Sequence) : Reduction Float := do
  report (.reducing s)
  match s.head with
  | none => fail .missingOuterGroup
  | some root =>
    let value ← perform (depthBound s) (.group root)
    let left := (← get).sequence
    if left.length ≠ 1 then fail (.leftoverCells left.text)
    else
      let x ← number value
      report (.result x)
      return x

/-- What came of an evaluation. -/
structure Evaluation where
  result : Except Fault Float
  /-- What was done, in order. -/
  history : List Step

namespace Evaluation

/-- The evaluation of a prepared sequence. -/
def ofSequence (s : Sequence) : Evaluation :=
  let (result, w) := (reduce s).run ⟨s, []⟩
  ⟨result, w.history.reverse⟩

/-- The evaluation of an expression given as tokens. -/
def ofTokens (tokens : List Token) : Evaluation :=
  match Sequence.prepare tokens with
  | .ok s => ofSequence s
  | .error cause => ⟨.error (.error cause), []⟩

/-- The value, or why there is none. -/
def value (e : Evaluation) : Except EvalError Float := e.result.mapError Fault.toError

/-- The events, in order. -/
def events (e : Evaluation) : List Log.Event := e.history.filterMap Step.event?

end Evaluation

/-- The value of an expression given as tokens. -/
def evaluate (tokens : List Token) : Except EvalError Float := (Evaluation.ofTokens tokens).value

/-! ## Text -/

/-- The value of an expression given as text. -/
def evaluateText (expression : String) : Except Error Float := do
  let tokens ← (tokenize expression).mapError Error.lex
  (evaluate tokens).mapError Error.eval

/-- The text of a value, or of the error in its place. -/
def showResult : Except Error Float → String
  | .ok value => Number.text value
  | .error cause => "ERROR: " ++ cause.message

/-- The text that an expression evaluates to. -/
def eval (expression : String) : String := showResult (evaluateText expression)

/-! ## The log of a text -/

/-- The events of an ending: a failure is an event of its own, a success was reported before. -/
def failureEvents (expression : String) : Except Error Float → List Log.Event
  | .ok _ => []
  | .error cause => [.failed expression cause.message]

/-- The events of evaluating an expression, in order. -/
def evalEvents (expression : String) : List Log.Event :=
  let items := (Lexer.ofString expression).items
  items.map Log.Event.ofLexItem ++
    match items.mapM id with
    | .error cause => failureEvents expression (.error (.lex cause))
    | .ok tokens =>
      let evaluation := Evaluation.ofTokens tokens
      evaluation.events ++ failureEvents expression (evaluation.value.mapError Error.eval)

end Calculator
