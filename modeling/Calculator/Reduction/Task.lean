import Calculator.Computation
import Calculator.Reduction.Workspace

/-!
# Reduction in place

The value of an expression is computed by replacing cells: a group by the number in it, a function
and its argument by the result, two numbers and the operator between them by their combination. In
the end one number is left.

## Tasks

The four kinds of work call one another, so they are one function on tasks. The body of each kind is
written for any way `recur` to do a task, and `perform` ties the knot. It counts down a bound on how
deep tasks are nested; every task takes cells away or comes closer to the end of the sequence, so a
bound of a few tasks per cell is never reached.

## Minus signs

A run of minus signs where an operand should begin is a factor: it becomes `-1 *` or `1 *`, by
parity. The product binds more loosely than exponentiation, so `-2&2` is `-4`. A run between two
operands is a subtraction if its length is odd, and an addition otherwise.
-/

namespace Calculator.Reduction

/-! ## Looking around -/

/-- The number at a handle. -/
def number (h : Handle) : Reduction Float := do
  match ← cellAt h with
  | .number x => return x
  | other => fail (.expectedNumber other.text)

/-- Stops for want of an operand at a cell. The last cell closes the outer group and stands for the
end of input. -/
def missingOperand {α : Type} (h : Handle) : Reduction α := do
  match ← nextOf h with
  | some _ => fail (.missingOperand (some (← cellAt h).text))
  | none => fail (.missingOperand none)

/-- The operator right after a handle, with its priority. -/
def operatorAfter (h : Handle) : Reduction (Option (Handle × Nat)) := do
  match ← nextOf h with
  | none => return none
  | some next =>
    match ← cellAt next with
    | .operator symbol => return (priority symbol).map fun p ↦ (next, p)
    | _ => return none

/-- The value of a computation. -/
def compute (what : Computation) : Reduction Float :=
  match what.value with
  | .ok value => return value
  | .error cause => fail cause

/-! ## Minus signs -/

/-- Takes out the minus signs after a handle, at most `limit` of them. The result tells whether
their number, counted on from `odd`, is odd. -/
def dropMinusSigns (h : Handle) : (limit : Nat) → (odd : Bool) → Reduction Bool
  | 0, _ => throw .exhausted
  | limit + 1, odd => do
    match ← nextOf h with
    | none => return odd
    | some next =>
      match ← cellAt next with
      | .operator '-' =>
        edit (.remove next)
        dropMinusSigns h limit (!odd)
      | _ => return odd

/-- Takes out the minus signs after a handle that has one itself. The result tells whether the
number of all of them is odd. -/
def dropMinusRun (h : Handle) : Reduction Bool := do
  dropMinusSigns h ((← get).sequence.slots.size + 1) true

/-- Makes a run of minus signs in front of an operand a factor. -/
def negate (h : Handle) : Reduction Handle := do
  let odd ← dropMinusRun h
  match ← nextOf h with
  | none => fail (.missingOperand none)
  | some operand =>
    let sign : Float := if odd then -1.0 else 1.0
    report (.unaryMinusRun sign)
    -- A product binds looser than a power, so a power behind the sign is folded first.
    edit (.set h (.number sign))
    edit (.insertBefore operand (.operator '*'))
    return h

/-- Makes a run of minus signs between two operands one operator; any other operator stays. -/
def collapseMinusRun (h : Handle) : Reduction Unit := do
  match ← cellAt h with
  | .operator '-' =>
    let odd ← dropMinusRun h
    unless odd do
      report .binaryMinusRun
      edit (.set h (.operator '+'))
  | _ => return

/-! ## Combining -/

/-- Replaces two numbers and the operator between them by one number, at the left handle. -/
def combine (left operator right : Handle) : Reduction Handle := do
  let x ← number left
  let y ← number right
  match ← cellAt operator with
  | .operator symbol =>
    let value ← compute (.combination x symbol y)
    report (.combination x symbol y value)
    edit (.set left (.number value))
    edit (.remove operator)
    edit (.remove right)
    return left
  | other => fail (.expectedOperator other.text)

/-! ## The tasks -/

section Bodies

variable (recur : Task → Reduction Handle)

/-- Reduces a group to the number in it, without its parentheses. -/
@[inline] def groupBody (opening : Handle) : Reduction Handle := do
  match ← cellAt opening with
  | .opening closing =>
    match ← nextOf opening with
    | none => fail .emptyGroup
    | some first =>
      if first = closing then fail .emptyGroup
      else
        let value ← recur (.operand first)
        let value ← recur (.expression value 1)
        match ← nextOf value with
        | none => fail .unclosedGroup
        | some next =>
          if next = closing then
            edit (.remove opening)
            edit (.remove closing)
            return value
          else fail (.unexpectedToken (← cellAt next).text)
  | other => fail (.groupStartsAt other.text)

/-- Applies a function to the group behind its name, and puts the value in the place of both. -/
@[inline] def applicationBody (h : Handle) (name : String) : Reduction Handle := do
  match ← nextOf h with
  | none => fail (.missingArgument name)
  | some opening =>
    match ← cellAt opening with
    | .opening _ =>
      let argument ← recur (.group opening)
      let x ← number argument
      let value ← compute (.application name x)
      report (.application name x value)
      edit (.set h (.number value))
      edit (.remove argument)
      return h
    | _ => fail (.missingArgument name)

/-- Reduces an operand to a number: a number, a group, a function with its argument, or the factor
that a run of minus signs becomes. -/
@[inline] def operandBody (start : Handle) : Reduction Handle := do
  match ← cellAt start with
  | .number _ => return start
  | .opening _ => recur (.group start)
  | .function name => applicationBody recur start name
  | .operator '-' => negate start
  | _ => missingOperand start

/-- Folds the next operator and its right operand into the left one, and goes on; ends at an
operator of too small a priority or where there is none. -/
@[inline] def expressionBody (left : Handle) (least : Nat) : Reduction Handle := do
  match ← operatorAfter left with
  | none => return left
  | some (operator, priority) =>
    if priority < least then return left
    else
      -- The priority stays that of a subtraction, whichever operator the run becomes.
      collapseMinusRun operator
      match ← nextOf operator with
      | none => fail (.missingOperand none)
      | some start =>
        let right ← recur (.operand start)
        let right ← recur (.rightOperand right priority)
        let left ← combine left operator right
        recur (.expression left least)

/-- Folds operators into a right operand while they bind tighter than the operator on its left, or
equally tight and group to the right. -/
@[inline] def rightOperandBody (right : Handle) (priority : Nat) : Reduction Handle := do
  match ← operatorAfter right with
  | none => return right
  | some (_, next) =>
    if priority < next ∨ next = priority ∧ groupsRight priority then
      let right ← recur (.expression right next)
      recur (.rightOperand right priority)
    else return right

end Bodies

/-- Does a task; tasks may be nested `depth` deep. -/
def perform : (depth : Nat) → Task → Reduction Handle
  | 0, _ => throw .exhausted
  | depth + 1, task => do
    note (.start task)
    match task with
    | .group opening => groupBody (perform depth) opening
    | .operand start => operandBody (perform depth) start
    | .expression left least => expressionBody (perform depth) left least
    | .rightOperand right priority => rightOperandBody (perform depth) right priority

end Calculator.Reduction
