import Calculator.Expression.Climbing
import Calculator.Proofs.Sequence.Represents

/-!
# What a prepared sequence holds

The cells between the parentheses of a prepared sequence, and how its parentheses nest. A stretch of
entries is *balanced* if every parenthesis in it has its partner in it, by handle and in place. Read
without handles, the entries are the items of which the list evaluator computes the value.

## Which cells stand between parentheses

Pairing works on a sequence whose other cells are still tokens, and reduction on one whose cells are
settled. Both speak of the same nesting, so what may stand between parentheses is a parameter.
-/

namespace Calculator

/-! ## Cells -/

namespace Cell

/-- A finite number, an operator or a function: what a reduction replaces and takes out. -/
def isPlain : Cell → Bool
  | number value => value.isFinite
  | operator _ | function _ => true
  | lexeme _ | opening _ | closing _ => false

/-- Whether a cell is plain or a parenthesis with a partner. -/
def isSettled : Cell → Bool
  | opening _ | closing _ => true
  | cell => cell.isPlain

/-- What a cell is without its handle; a token that was not taken over yet is nothing. -/
def item? : Cell → Option Climbing.Item
  | lexeme _ => none
  | number value => some (.number value)
  | operator symbol => some (.operator symbol)
  | function name => some (.function name)
  | opening _ => some .opening
  | closing _ => some .closing

theorem text_of_item? {cell : Cell} {item : Climbing.Item} (h : cell.item? = some item) :
    item.text = cell.text := by
  cases cell <;> cases h <;> rfl

private theorem isSome_item? {cell : Cell} (h : cell.isSettled) : cell.item?.isSome := by
  cases cell <;> first | rfl | cases h

theorem isSettled_of_isPlain {cell : Cell} (h : cell.isPlain) : cell.isSettled := by
  cases cell <;> first | rfl | exact h

end Cell

namespace Sequence

/-- No entry is a token that was not taken over, and every number is finite. -/
def Settled (entries : List Entry) : Prop := ∀ e ∈ entries, e.2.isSettled

/-- What entries are without their handles. -/
def itemsOf (entries : List Entry) : List Climbing.Item := entries.filterMap fun e ↦ e.2.item?

@[simp] theorem itemsOf_nil : itemsOf [] = [] := rfl

@[simp] theorem itemsOf_append (es fs : List Entry) :
    itemsOf (es ++ fs) = itemsOf es ++ itemsOf fs := List.filterMap_append

@[simp] theorem itemsOf_number (h : Handle) (value : Float) (es : List Entry) :
    itemsOf ((h, .number value) :: es) = .number value :: itemsOf es := rfl

@[simp] theorem itemsOf_operator (h : Handle) (symbol : Char) (es : List Entry) :
    itemsOf ((h, .operator symbol) :: es) = .operator symbol :: itemsOf es := rfl

@[simp] theorem itemsOf_function (h : Handle) (name : String) (es : List Entry) :
    itemsOf ((h, .function name) :: es) = .function name :: itemsOf es := rfl

@[simp] theorem itemsOf_opening (h partner : Handle) (es : List Entry) :
    itemsOf ((h, .opening partner) :: es) = .opening :: itemsOf es := rfl

@[simp] theorem itemsOf_closing (h partner : Handle) (es : List Entry) :
    itemsOf ((h, .closing partner) :: es) = .closing :: itemsOf es := rfl

theorem itemsOf_cons_of_item? {h : Handle} {cell : Cell} {item : Climbing.Item} {es : List Entry}
    (hitem : cell.item? = some item) : itemsOf ((h, cell) :: es) = item :: itemsOf es := by
  simp [itemsOf, hitem]

theorem itemsOf_eq_nil_iff {es : List Entry} (h : Settled es) : itemsOf es = [] ↔ es = [] := by
  cases es with
  | nil => simp
  | cons e es =>
    obtain ⟨item, hitem⟩ := Option.isSome_iff_exists.mp
      (Cell.isSome_item? (h e List.mem_cons_self))
    simp [itemsOf, hitem]

/-! ## Nesting -/

/-- Entries in which every parenthesis has its partner, with only `ordinary` cells besides. -/
inductive Balanced (ordinary : Cell → Prop) : List Entry → Prop where
  | nil : Balanced ordinary []
  | cons {h : Handle} {cell : Cell} {rest : List Entry} :
      ordinary cell → Balanced ordinary rest → Balanced ordinary ((h, cell) :: rest)
  | group {opening closing : Handle} {inner rest : List Entry} :
      Balanced ordinary inner → Balanced ordinary rest →
      Balanced ordinary
        ((opening, .opening closing) :: (inner ++ (closing, .closing opening) :: rest))

namespace Balanced

variable {ordinary : Cell → Prop} {es fs : List Entry}

theorem append (hes : Balanced ordinary es) (hfs : Balanced ordinary fs) :
    Balanced ordinary (es ++ fs) := by
  induction hes with
  | nil => exact hfs
  | cons hcell _ ih => exact .cons hcell ih
  | group hinner _ _ ih => simpa using Balanced.group hinner ih

theorem enclose {opening closing : Handle} (hes : Balanced ordinary es) :
    Balanced ordinary ((opening, .opening closing) :: (es ++ [(closing, .closing opening)])) :=
  .group hes .nil

/-- Every cell is ordinary or a parenthesis. -/
theorem cell_cases (hes : Balanced ordinary es) {e : Entry} (he : e ∈ es) :
    ordinary e.2 ∨ (∃ partner, e.2 = .opening partner) ∨ ∃ partner, e.2 = .closing partner := by
  induction hes with
  | nil => cases he
  | cons hcell _ ih =>
    rcases List.mem_cons.mp he with rfl | he
    · exact .inl hcell
    · exact ih he
  | group _ _ ihinner ihrest =>
    rcases List.mem_cons.mp he with rfl | he
    · exact .inr (.inl ⟨_, rfl⟩)
    rcases List.mem_append.mp he with he | he
    · exact ihinner he
    rcases List.mem_cons.mp he with rfl | he
    · exact .inr (.inr ⟨_, rfl⟩)
    · exact ihrest he

end Balanced

/-- Balanced entries of a prepared sequence. -/
abbrev IsBody (entries : List Entry) : Prop := Balanced (fun cell ↦ cell.isPlain) entries

theorem IsBody.settled {es : List Entry} (h : IsBody es) : Settled es := by
  intro e he
  rcases h.cell_cases he with hcell | ⟨partner, hcell⟩ | ⟨partner, hcell⟩
  · exact Cell.isSettled_of_isPlain hcell
  · rw [hcell]
    rfl
  · rw [hcell]
    rfl

end Sequence

end Calculator
