import Calculator.Sequence.Basic

/-!
# Edits as data

One edit of a sequence as a value, so that a list of edits is a history and a law about every
history is a law about every list. An edit that names a handle which was never given out is refused
and changes nothing.
-/

namespace Calculator.Sequence

/-- A change to a sequence. -/
inductive Edit where
  | pushBack (cell : Cell)
  | pushFront (cell : Cell)
  | insertAfter (handle : Handle) (cell : Cell)
  | insertBefore (handle : Handle) (cell : Cell)
  | set (handle : Handle) (cell : Cell)
  | remove (handle : Handle)
deriving DecidableEq

namespace Edit

/-- The handle that an edit names. -/
def target? : Edit → Option Handle
  | pushBack _ | pushFront _ => none
  | insertAfter h _ | insertBefore h _ | set h _ | remove h => some h

/-- Whether an edit brings a new cell. -/
def isInsertion : Edit → Bool
  | pushBack _ | pushFront _ | insertAfter _ _ | insertBefore _ _ => true
  | set _ _ | remove _ => false

/-- Does an edit whose handle was given out. -/
def apply (s : Sequence) : Edit → Sequence
  | pushBack cell => s.pushBack cell
  | pushFront cell => s.pushFront cell
  | insertAfter h cell => s.insertAfter h cell
  | insertBefore h cell => s.insertBefore h cell
  | set h cell => s.set h cell
  | remove h => s.remove h

/-- The fault of an edit, if it names a handle that was never given out. -/
def fault? (s : Sequence) (edit : Edit) : Option OutOfRange :=
  match edit.target? with
  | some h => if h < s.slots.size then none else some ⟨s.slots.size, h⟩
  | none => none

/-- The handle of the cell that an edit brings. -/
def created? (s : Sequence) (edit : Edit) : Option Handle :=
  if edit.isInsertion then some s.slots.size else none

end Edit

/-- Does an edit; answers the handle of the new cell if there is one. -/
def perform (s : Sequence) (edit : Edit) : Except OutOfRange (Option Handle × Sequence) :=
  match edit.fault? s with
  | some e => .error e
  | none =>
    let created := edit.created? s
    .ok (created, edit.apply s)

/-- Does edits one after the other. -/
def replay (s : Sequence) (edits : List Edit) : Sequence := edits.foldl Edit.apply s

theorem replay_append (s : Sequence) (earlier later : List Edit) :
    s.replay (earlier ++ later) = (s.replay earlier).replay later := List.foldl_append

end Calculator.Sequence
