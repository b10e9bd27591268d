/-!
# Log levels

How important an event is, and how much of the log a reader asks for. A reader who asks for a level
sees its events and those of every more important level.
-/

namespace Calculator.Log

/-- The importance of an event. -/
inductive Level where
  | error
  | warn
  | info
  | debug
  | trace
deriving DecidableEq, Repr

/-- How many levels are at least as important. -/
def Level.rank : Level → Nat
  | error => 1
  | warn => 2
  | info => 3
  | debug => 4
  | trace => 5

/-- Whether a reader who asked for a level sees another one; a reader who asked for none sees
nothing. -/
def isShown (threshold : Option Level) (level : Level) : Bool :=
  match threshold with
  | some least => level.rank ≤ least.rank
  | none => false

end Calculator.Log
