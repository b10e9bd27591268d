import Calculator.Sequence.Cell

/-!
# Linked sequences

A sequence of cells in which a cell can be put next to any other, or taken out, in constant time.
The cells live in slots that are never given back: the handle of a cell is the number of its slot,
and a cell that was taken out keeps its slot, without links, so its handle stays good for ever.

## What follows nothing is the head

Each slot links to the cells before and after it. The cell after none is the head and the cell
before none the tail, so an edit relinks neighbours in one way whether they exist or not.

## Edits next to cells that were taken out

Nothing forbids an edit at the handle of a cell that is out of the sequence. Such an edit links the
new cell to the slots as it finds them, which may bring the cell back into the sequence, move the
head or the tail, or begin a chain that the head does not lead to. The length is a counter of its
own, 64 bits wide, that each insertion raises and each removal of a linked cell lowers; after such
edits it need not be the number of cells from the head on.
-/

namespace Calculator

/-- The place of a cell: what it is, and the cells before and after it. -/
structure Slot where
  cell : Cell
  previous : Option Handle
  next : Option Handle
deriving DecidableEq, Inhabited

/-- Cells in a row that can be edited in place. -/
structure Sequence where
  slots : Array Slot
  head : Option Handle
  tail : Option Handle
  length : UInt64
deriving DecidableEq, Inhabited

/-- A handle that was never given out. -/
structure OutOfRange where
  /-- How many handles were given out. -/
  size : Nat
  handle : Handle
deriving DecidableEq, Repr

/-- The text of a fault with a handle. -/
def OutOfRange.message (e : OutOfRange) : String :=
  "index out of bounds: the len is " ++ e.size.repr ++ " but the index is " ++ e.handle.repr

namespace Sequence

/-- The sequence without cells. -/
def empty : Sequence := ⟨#[], none, none, 0⟩

/-- Whether the length is zero. -/
def isEmpty (s : Sequence) : Bool := s.length == 0

/-- The slot of a handle. -/
def slot (s : Sequence) (h : Handle) : Except OutOfRange Slot :=
  match s.slots[h]? with
  | some slot => .ok slot
  | none => .error ⟨s.slots.size, h⟩

/-! ## The cells in order -/

/-- The handles from a place on along the links, at most `limit` of them. -/
def walk (s : Sequence) : (limit : Nat) → Option Handle → List Handle
  | 0, _ => []
  | _, none => []
  | limit + 1, some h => h :: s.walk limit (s.slots[h]?.bind Slot.next)

/-- The handles from the head on. -/
def handles (s : Sequence) : List Handle := s.walk s.slots.size s.head

/-- The cells from the head on. -/
def cells (s : Sequence) : List Cell := s.handles.filterMap fun h ↦ s.slots[h]?.map Slot.cell

/-- The texts of the cells, separated by blanks. -/
def text (s : Sequence) : String := " ".intercalate (s.cells.map Cell.text)

/-! ## Edits -/

/-- Makes `next` what follows a cell; what follows none is the head. -/
def linkNext (s : Sequence) (h : Option Handle) (next : Option Handle) : Sequence :=
  match h with
  | some h => { s with slots := s.slots.modify h fun slot ↦ { slot with next } }
  | none => { s with head := next }

/-- Makes `previous` what precedes a cell; what precedes none is the tail. -/
def linkPrevious (s : Sequence) (h : Option Handle) (previous : Option Handle) : Sequence :=
  match h with
  | some h => { s with slots := s.slots.modify h fun slot ↦ { slot with previous } }
  | none => { s with tail := previous }

/-- Puts a new cell between two neighbours. Its handle is the number of slots before. -/
def insert (s : Sequence) (cell : Cell) (previous next : Option Handle) : Sequence :=
  let h := s.slots.size
  let s := { s with slots := s.slots.push ⟨cell, previous, next⟩, length := s.length + 1 }
  (s.linkNext previous (some h)).linkPrevious next (some h)

/-- Puts a new cell at the end. -/
def pushBack (s : Sequence) (cell : Cell) : Sequence :=
  let tail := s.tail
  s.insert cell tail none

/-- Puts a new cell at the start. -/
def pushFront (s : Sequence) (cell : Cell) : Sequence :=
  let head := s.head
  s.insert cell none head

/-- Puts a new cell right after another. -/
def insertAfter (s : Sequence) (h : Handle) (cell : Cell) : Sequence :=
  let next := s.slots[h]?.bind Slot.next
  s.insert cell (some h) next

/-- Puts a new cell right before another. -/
def insertBefore (s : Sequence) (h : Handle) (cell : Cell) : Sequence :=
  let previous := s.slots[h]?.bind Slot.previous
  s.insert cell previous (some h)

/-- Changes what a cell is. -/
def set (s : Sequence) (h : Handle) (cell : Cell) : Sequence :=
  { s with slots := s.slots.modify h fun slot ↦ { slot with cell } }

/-- Whether a slot looks like one that was taken out: without links, and not the head. -/
def isUnlinked (s : Sequence) (h : Handle) (slot : Slot) : Bool :=
  slot.previous.isNone && slot.next.isNone && s.head != some h

/-- Takes the links of a cell away. -/
def clearLinks (s : Sequence) (h : Handle) : Sequence :=
  { s with slots := s.slots.modify h fun slot ↦ { slot with previous := none, next := none } }

/-- Takes a cell out; nothing happens if it is out already. -/
def remove (s : Sequence) (h : Handle) : Sequence :=
  match s.slots[h]? with
  | none => s
  | some slot =>
    if s.isUnlinked h slot then s
    else
      let s := (s.linkNext slot.previous slot.next).linkPrevious slot.next slot.previous
      let s := s.clearLinks h
      { s with length := s.length - 1 }

end Sequence

end Calculator
