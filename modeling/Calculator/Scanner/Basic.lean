/-!
# A window over a source

A scanner reads a source item by item and remembers what it has read until it is told to forget it,
so that a reader can look ahead and go back. What it remembers is the *buffer*; the items behind it
are *unread*. The *cursor* counts the items of the buffer that have been accepted so far, and these
items are the *view*.

## The place past the end

A cursor may stand one item past the buffer. A reader comes there when it asks for an item that the
source does not have, and it may also be put there while the source still has items. Stepping on
reads as many items as the new place needs, and stops one past the buffer when the source has no
more.

## Positions

The *position* is the index in the buffer of the item last accepted, and `-1` before the first. The
*offset* counts the items that were forgotten, so the item at buffer index `i` is item `offset + i`
of the whole source.
-/

namespace Calculator

/-- A window over a source of items. -/
structure Scanner (α : Type) where
  /-- The items read and not forgotten. -/
  buffer : Array α
  /-- The items that were not read yet. -/
  unread : List α
  /-- One more than the position. -/
  cursor : Nat
  /-- How many items were forgotten. -/
  offset : Nat
deriving Repr

/-- An action on a scanner. -/
abbrev Scan (α β : Type) := StateM (Scanner α) β

namespace Scanner

variable {α : Type}

/-! ## What can be seen -/

/-- A scanner at the start of a source. -/
def ofList (source : List α) : Scanner α := ⟨#[], source, 0, 0⟩

/-- The index of the item last accepted. -/
def position (s : Scanner α) : Int := (s.cursor : Int) - 1

/-- The item last accepted. -/
def current (s : Scanner α) : Option α :=
  match s.cursor with
  | 0 => none
  | i + 1 => s.buffer[i]?

/-- The accepted items. -/
def view (s : Scanner α) : List α := s.buffer.toList.take s.cursor

/-- The items that were not forgotten: the rest of the source from the offset on. -/
def rest (s : Scanner α) : List α := s.buffer.toList ++ s.unread

/-! ## Moving -/

/-- Reads items until the buffer has `size` of them or the source is at its end. -/
def fill (s : Scanner α) (size : Nat) : Scanner α :=
  let missing := size - s.buffer.size
  { s with buffer := s.buffer ++ s.unread.take missing, unread := s.unread.drop missing }

/-- Steps on to the next item, if the source has one. -/
def next : Scan α (Option α) := fun s ↦
  let filled := s.fill (s.cursor + 1)
  (filled.buffer[s.cursor]?, { filled with cursor := min (s.cursor + 1) (filled.buffer.size + 1) })

/-- Puts the cursor at a position from `-1` to one past the buffer; any other is refused. -/
def setPosition (position : Int) : Scan α Bool := fun s ↦
  if -1 ≤ position ∧ position ≤ s.buffer.size then
    (true, { s with cursor := (position + 1).toNat })
  else (false, s)

/-- The same window with its cursor elsewhere. -/
def moveTo (cursor : Nat) (s : Scanner α) : Scanner α := { s with cursor }

/-- The next item, without stepping on to it. -/
def peek : Scan α (Option α) := fun s ↦
  let start := s.cursor
  let (item, s) := next s
  (item, s.moveTo start)

/-- Steps on to the next item if it satisfies a condition. -/
def acceptIf (condition : α → Bool) : Scan α (Option α) := fun s ↦
  let start := s.cursor
  match next s with
  | (some item, s) => if condition item then (some item, s) else (none, s.moveTo start)
  | (none, s) => (none, s.moveTo start)

/-! ## Forgetting -/

/-- Forgets the view. -/
def ignore : Scan α Unit := fun s ↦
  ((), { s with
    buffer := s.buffer.extract s.cursor s.buffer.size
    cursor := 0
    offset := s.offset + min s.cursor s.buffer.size })

/-- Forgets the view and returns it. -/
def extract : Scan α (List α) := fun s ↦
  let items := s.view
  (items, (ignore s).2)

/-! ## The items ahead

Looking and moving never change `rest`; each item that is stepped on leaves one fewer ahead. -/

/-- How many items a scanner can still step on to. -/
def ahead (s : Scanner α) : Nat := s.rest.length - s.cursor

@[simp] theorem rest_fill (s : Scanner α) (size : Nat) : (s.fill size).rest = s.rest := by
  simp [rest, fill]

@[simp] theorem rest_next (s : Scanner α) : (next s).2.rest = s.rest := by
  rw [← rest_fill s (s.cursor + 1)]
  rfl

theorem cursor_next_of_some {s : Scanner α} {item : α} (h : (next s).1 = some item) :
    (next s).2.cursor = s.cursor + 1 ∧ s.cursor < s.rest.length := by
  have hlt : s.cursor < (s.fill (s.cursor + 1)).buffer.size := by
    obtain ⟨hlt, -⟩ := Array.getElem?_eq_some_iff.mp (show _ = some item from h)
    exact hlt
  refine ⟨Nat.min_eq_left (by omega), ?_⟩
  have hsize : (s.fill (s.cursor + 1)).buffer.size ≤ s.rest.length := by
    rw [← rest_fill s (s.cursor + 1), rest, List.length_append, Array.length_toList]
    omega
  omega

theorem ahead_acceptIf_lt {condition : α → Bool} {s s' : Scanner α} {item : α}
    (h : acceptIf condition s = (some item, s')) : s'.ahead < s.ahead := by
  have hcursor := @cursor_next_of_some α s
  have hrest := rest_next s
  unfold acceptIf at h
  grind [ahead]

/-- Steps on while the next item satisfies a condition. -/
def skipWhile (condition : α → Bool) (advanced : Bool) (s : Scanner α) : Bool × Scanner α :=
  match _ : acceptIf condition s with
  | (some _, s') => skipWhile condition true s'
  | (none, s') => (advanced, s')
termination_by s.ahead
decreasing_by exact ahead_acceptIf_lt ‹_›

/-! ## Equality tests -/

variable [BEq α]

/-- Steps on to the next item if it is the given one. -/
def accept (item : α) : Scan α (Option α) := acceptIf (· == item)

/-- Steps on to the next item if it is one of the given ones. -/
def acceptAny (items : List α) : Scan α (Option α) := acceptIf (items.contains ·)

/-- Steps on while the next item is one of the given ones; tells whether it stepped at all. -/
def skipAll (items : List α) : Scan α Bool := skipWhile (items.contains ·) false

end Scanner

end Calculator
