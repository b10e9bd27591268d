import Calculator.Log.Event
import Calculator.Sequence.Edit

/-!
# The workspace of a reduction

A reduction works on one sequence and keeps a history of what it did: the tasks it began, the cells
it looked at, the edits it made and the events it reported. The log is a part of the history. The
edits tell how the sequence looked at every moment, so what holds all along a run can be said of its
history.

## Faults

Besides the errors of an expression a reduction has two faults of its own: a handle that was never
given out, and a run that does not end within its bound. No run from a prepared sequence meets
either; they are kept apart from the errors so that this can be said.
-/

namespace Calculator

namespace Reduction

/-- What there is to do at a place of the sequence. -/
inductive Task where
  /-- Reduce the group that opens at a handle to one number. -/
  | group (opening : Handle)
  /-- Reduce the operand that begins at a handle. -/
  | operand (start : Handle)
  /-- Fold the operators behind a number into it, as long as their priority is at least `least`. -/
  | expression (left : Handle) (least : Nat)
  /-- Fold the operators behind a right operand into it that take it from an operator of a given
  priority on its left. -/
  | rightOperand (right : Handle) (priority : Nat)
deriving DecidableEq, Repr

/-- An entry of the history. -/
inductive Step where
  | start (task : Task)
  | look (handle : Handle)
  | edit (edit : Sequence.Edit)
  | report (event : Log.Event)
deriving DecidableEq

namespace Step

/-- The edit that an entry tells of. -/
def edit? : Step → Option Sequence.Edit
  | edit e => some e
  | _ => none

/-- The event that an entry tells of. -/
def event? : Step → Option Log.Event
  | report e => some e
  | _ => none

end Step

/-- A sequence being reduced, and what was done so far. -/
structure Workspace where
  sequence : Sequence
  /-- The history, the newest entry first. -/
  history : List Step

/-- Why a reduction stopped without a value. -/
inductive Fault where
  | error (cause : EvalError)
  | outOfRange (cause : OutOfRange)
  | exhausted
deriving DecidableEq

/-- A fault as an error of the expression. -/
def Fault.toError : Fault → EvalError
  | error cause => cause
  | outOfRange cause => .internal cause.message
  | exhausted => .internal "reduction without end"

end Reduction

open Reduction in
/-- A computation in a workspace. What it did before a fault stays done. -/
abbrev Reduction (α : Type) := ExceptT Fault (StateM Workspace) α

namespace Reduction

/-- Enters a step into the history. -/
def note (step : Step) : Reduction Unit := modify fun w ↦ { w with history := step :: w.history }

/-- Reports an event. -/
def report (event : Log.Event) : Reduction Unit := note (.report event)

/-- Stops with an error of the expression. -/
def fail {α : Type} (cause : EvalError) : Reduction α := throw (.error cause)

/-- The slot of a handle. -/
def look (h : Handle) : Reduction Slot := do
  note (.look h)
  match (← get).sequence.slot h with
  | .ok slot => return slot
  | .error cause => throw (.outOfRange cause)

/-- The cell of a handle. -/
def cellAt (h : Handle) : Reduction Cell := return (← look h).cell

/-- The handle after a handle. -/
def nextOf (h : Handle) : Reduction (Option Handle) := return (← look h).next

/-- Edits the sequence. -/
def edit (e : Sequence.Edit) : Reduction Unit := do
  note (.edit e)
  let fault? ← modifyGet fun w ↦
    match e.fault? w.sequence with
    | some cause => (some cause, w)
    | none => (none, { w with sequence := e.apply w.sequence })
  match fault? with
  | some cause => throw (.outOfRange cause)
  | none => return

end Reduction

end Calculator
