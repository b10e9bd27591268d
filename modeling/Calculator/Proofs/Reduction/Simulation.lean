import Calculator.Proofs.Reduction.Parts

/-!
# Reduction in place follows the plain reading

Each task of a reduction in place does what the function of the same name does on the list of items
from the task's place on, at the same depth.

## The invariant

At every task the entries are those before the place, a balanced body, and a rest that begins with
the closing parenthesis of the group around the place. The task works on the body alone. When it
has answered, a number stands before what is left of the body, and the rest is as it was. Because a
minus run leaves a multiplication that was not there before, what is left need not be a part of the
old body; that it is balanced is all that the next task needs.
-/

namespace Calculator

namespace Reduction

open Sequence Climbing

variable {origin : Sequence} {w : Workspace} {es before body rest : List Entry} {h : Handle}
  {cell : Cell}

/-- What is left after a task: a number at the task's place, then a balanced body and the rest. -/
def Reduced (before rest : List Entry) (h : Handle) (answer : Float × List Item)
    (es : List Entry) : Prop :=
  ∃ body, IsBody body ∧ es = before ++ (h, .number answer.1) :: (body ++ rest) ∧
    answer.2 = itemsOf (body ++ rest)

/-! ## Numbers -/

theorem simulates_number {α β : Type} {x : Float} {after : List Entry} {f : Float → Reduction α}
    {good : α → β → List Entry → Prop} {answer : ExceptT EvalError Option β}
    (hw : w.Holds origin es) (hes : es = before ++ (h, .number x) :: after)
    (hf : ∀ w', w'.Holds origin es → Simulates origin (f x) w' good answer) :
    Simulates origin (number h >>= f) w good answer := by
  rw [number, bind_assoc]
  exact ensures_cellAt hw hes hf

theorem simulates_compute {α β : Type} {what : Computation} {f : Float → Reduction α}
    {good : α → β → List Entry → Prop} {k : Float → ExceptT EvalError Option β}
    (hw : w.Holds origin es)
    (hf : ∀ value, what.value = .ok value → Simulates origin (f value) w good (k value)) :
    Simulates origin (compute what >>= f) w good
      (match what.value with
        | .ok value => k value
        | .error cause => throw cause) := by
  refine ensures_compute (fun cause hcause ↦ ?_) fun value hvalue ↦ ?_
  · rw [hcause]
    exact .error hw
  · rw [hvalue]
    exact hf value hvalue

/-! ## Minus signs -/

theorem simulates_negate (depth : Nat) (hbody : IsBody body) (hrest : IsClosing rest)
    (hw : w.Holds origin es) (hes : es = before ++ (h, .operator '-') :: (body ++ rest)) :
    Simulates origin (negate h) w (Reduced before rest)
      (operand (depth + 1) (.operator '-' :: itemsOf (body ++ rest))) := by
  rw [← bind_pure (negate h), operand_minus]
  refine (Account.answers_negate hbody hrest (Account.at_free hw) hes).bind ?_
  rintro h' w es _ hw ⟨rfl, odd, body, fresh, hbody, hes, hrun, -⟩
  obtain ⟨-, item, items, hitems⟩ := exists_next hrest body
  rw [hrun, hitems]
  -- The new product is part of the body that is left.
  refine simulates_pure hw.holds ⟨(fresh, .operator '*') :: body, .cons rfl hbody, hes, ?_⟩
  rw [List.cons_append, itemsOf_operator, hitems]

/-! ## Combining -/

theorem simulates_combine {left operator right : Handle} {x y : Float} {symbol : Char}
    {after : List Entry} {α : Type} {f : Handle → Reduction Handle}
    {good : Handle → α → List Entry → Prop} {k : Float → ExceptT EvalError Option α}
    (hw : w.Holds origin es)
    (hes : es = before ++ (left, .number x) :: (operator, .operator symbol) ::
      (right, .number y) :: after)
    (hf : ∀ z w', w'.Holds origin (before ++ (left, .number z) :: after) →
      Simulates origin (f left) w' good (k z)) :
    Simulates origin (combine left operator right >>= f) w good
      (match (Computation.combination x symbol y).value with
        | .ok z => k z
        | .error cause => throw cause) := by
  refine (Account.at_free hw).combine hes (fun cause w hcause hw ↦ ?_) fun z w hz hw ↦ ?_
  · rw [hcause]
    exact .error hw.holds
  · rw [hz]
    exact hf z w hw.holds

end Reduction

end Calculator
