import Calculator.Proofs.Climbing.Depth
import Calculator.Proofs.Reduction.Run

/-!
# Reduction by its own measure

Tasks again, but without a bound on how deep they are nested. In its place each task is weighed on
the sequence as it is found, and only a task lighter than its caller is done. The recursion is
well-founded by that alone. Where no call is ever refused, the weight is a measure that decreases
from every call to the calls it makes, and no bound was needed.

## The weight of a task

A task works on the cells behind its place, so it weighs what they weigh. A minus sign weighs two,
because it may turn into a factor and a product, and any other cell one. Doubling makes room between
two weights: a group is heavier than its first operand, and a right operand heavier than the
expression that it is folded by, though the same cells lie behind both.
-/

namespace Calculator

/-! ## Weights -/

namespace Sequence

/-- The items from a place on. -/
def itemsFrom (s : Sequence) (place : Option Handle) : List Climbing.Item :=
  (s.walk s.slots.size place).filterMap fun h ↦ (s.slots[h]?.map Slot.cell).bind Cell.item?

/-- The weight of the cells from a place on. -/
def weightFrom (s : Sequence) (place : Option Handle) : Nat := Climbing.weight (s.itemsFrom place)

/-- The weight of the cells behind a handle. -/
def weightBehind (s : Sequence) (h : Handle) : Nat := s.weightFrom (s.slots[h]?.bind Slot.next)

variable {s : Sequence} {es before after : List Entry} {h : Handle} {cell : Cell}

theorem Represents.itemsFrom_eq (hs : s.Represents es) (hes : es = before ++ after) :
    s.itemsFrom (firstOf after) = itemsOf after := by
  have hafter : after ⊆ es := hes ▸ List.subset_append_right before after
  have hlimit : after.length ≤ s.slots.size := by
    have hle := hs.length_le_size
    rw [hes, List.length_append] at hle
    omega
  rw [itemsFrom, hs.walk_eq hes hlimit]
  exact hs.filterMap_cell _ hafter

theorem Represents.weightFrom_eq (hs : s.Represents es) (hes : es = before ++ after) :
    s.weightFrom (firstOf after) = Climbing.weight (itemsOf after) := by
  rw [weightFrom, hs.itemsFrom_eq hes]

theorem Represents.weightBehind_eq (hs : s.Represents es)
    (hes : es = before ++ (h, cell) :: after) :
    s.weightBehind h = Climbing.weight (itemsOf after) := by
  rw [weightBehind, hs.linked before h cell after hes]
  exact hs.weightFrom_eq (hes.trans (List.append_cons _ _ _))

end Sequence

namespace Reduction

open Sequence

/-- What a task weighs in a sequence. -/
def Task.weight (s : Sequence) : Task → Nat
  | .group opening => 2 * s.weightBehind opening + 1
  | .operand start => 2 * s.weightFrom (some start)
  | .expression left _ => 2 * s.weightBehind left
  | .rightOperand right _ => 2 * s.weightBehind right + 1

/-! ## Recursion on the weight -/

/-- What a task consists of, for any way `recur` to do the tasks it calls. -/
def bodyOf (recur : Task → Reduction Handle) : Task → Reduction Handle
  | .group opening => groupBody recur opening
  | .operand start => operandBody recur start
  | .expression left least => expressionBody recur left least
  | .rightOperand right priority => rightOperandBody recur right priority

theorem perform_succ (depth : Nat) (task : Task) :
    perform (depth + 1) task = note (.start task) >>= fun _ ↦ bodyOf (perform depth) task := by
  cases task <;> rfl

/-- Does a task that weighs less than `bound`, and the tasks it calls if they weigh less than it
does. -/
def performBelow (bound : Nat) (task : Task) : Reduction Handle := do
  let weight := task.weight (← get).sequence
  if weight < bound then
    note (.start task)
    bodyOf (performBelow weight) task
  else throw .exhausted
termination_by bound

/-- A round of the loop over the minus signs after a handle; `again` is what comes after it if it
took a minus sign out. -/
def minusSignsRound (h : Handle) (odd : Bool) (again : Reduction Bool) : Reduction Bool := do
  match ← nextOf h with
  | none => return odd
  | some next =>
    match ← cellAt next with
    | .operator '-' =>
      edit (.remove next)
      again
    | _ => return odd

theorem dropMinusSigns_succ (h : Handle) (limit : Nat) (odd : Bool) :
    dropMinusSigns h (limit + 1) odd
      = minusSignsRound h odd (dropMinusSigns h limit (!odd)) := rfl

/-- Takes out the minus signs after a handle if less than `bound` is behind it, in each round less
than in the round before. -/
def dropMinusSignsBelow (h : Handle) (bound : Nat) (odd : Bool) : Reduction Bool := do
  let weight := (← get).sequence.weightBehind h
  if weight < bound then minusSignsRound h odd (dropMinusSignsBelow h weight (!odd))
  else throw .exhausted
termination_by bound

/-! ## Doing the same unless refused -/

/-- A reduction does what another does, unless it stops for want of a bound. -/
def Approximates {α : Type} (m m' : Reduction α) : Prop :=
  ∀ w, (m.run.run w).1 = .error .exhausted ∨ m.run.run w = m'.run.run w

/-- From a workspace, two reductions do the same, and do not stop for want of a bound. -/
def EndsAs {α : Type} (m m' : Reduction α) (w : Workspace) : Prop :=
  (m.run.run w).1 ≠ .error .exhausted ∧ m.run.run w = m'.run.run w

namespace Approximates

variable {α β : Type} {m m' : Reduction α} {f f' : α → Reduction β}

theorem refl (m : Reduction α) : Approximates m m := fun _ ↦ .inr rfl

theorem endsAs {w : Workspace} (h : Approximates m m')
    (hends : (m.run.run w).1 ≠ .error .exhausted) : EndsAs m' m w := by
  have hsame := (h w).resolve_left hends
  exact ⟨hsame ▸ hends, hsame.symm⟩

theorem bind (hm : Approximates m m') (hf : ∀ a, Approximates (f a) (f' a)) :
    Approximates (m >>= f) (m' >>= f') := by
  intro w
  rw [run_bind, run_bind]
  rcases hm w with hm | hm
  · left
    generalize m.run.run w = r at hm
    obtain ⟨result, w'⟩ := r
    subst hm
    rfl
  · rw [← hm]
    rcases m.run.run w with ⟨a | fault, w'⟩
    · exact .inr rfl
    · exact hf _ w'

private theorem bind_left (hm : Approximates m m') (f : α → Reduction β) :
    Approximates (m >>= f) (m' >>= f) := hm.bind fun a ↦ refl (f a)

theorem bind_right (m : Reduction α) (hf : ∀ a, Approximates (f a) (f' a)) :
    Approximates (m >>= f) (m >>= f') := (refl m).bind hf

end Approximates

section Bodies

variable {recur recur' : Task → Reduction Handle}
  (hrecur : ∀ task, Approximates (recur task) (recur' task))

include hrecur

private theorem approximates_groupBody (opening : Handle) :
    Approximates (groupBody recur opening) (groupBody recur' opening) := by
  rw [groupBody, groupBody]
  refine .bind_right _ fun cell ↦ ?_
  split
  · refine .bind_right _ fun next ↦ ?_
    split
    · exact .refl _
    split
    · exact .refl _
    exact (hrecur _).bind fun value ↦ (hrecur _).bind_left _
  · exact .refl _

private theorem approximates_applicationBody (h : Handle) (name : String) :
    Approximates (applicationBody recur h name) (applicationBody recur' h name) := by
  rw [applicationBody, applicationBody]
  refine .bind_right _ fun next ↦ ?_
  split
  · exact .refl _
  refine .bind_right _ fun cell ↦ ?_
  split
  · exact (hrecur _).bind_left _
  · exact .refl _

private theorem approximates_operandBody (start : Handle) :
    Approximates (operandBody recur start) (operandBody recur' start) := by
  rw [operandBody, operandBody]
  refine .bind_right _ fun cell ↦ ?_
  split
  · exact .refl _
  · exact hrecur _
  · exact approximates_applicationBody hrecur start _
  · exact .refl _
  · exact .refl _

private theorem approximates_expressionBody (left : Handle) (least : Nat) :
    Approximates (expressionBody recur left least) (expressionBody recur' left least) := by
  rw [expressionBody, expressionBody]
  refine .bind_right _ fun found ↦ ?_
  split
  · exact .refl _
  split
  · exact .refl _
  refine .bind_right _ fun _ ↦ .bind_right _ fun next ↦ ?_
  split
  · exact .refl _
  refine (hrecur _).bind fun right ↦ (hrecur _).bind fun right ↦ ?_
  exact .bind_right _ fun left ↦ hrecur _

private theorem approximates_rightOperandBody (right : Handle) (priority : Nat) :
    Approximates (rightOperandBody recur right priority)
      (rightOperandBody recur' right priority) := by
  rw [rightOperandBody, rightOperandBody]
  refine .bind_right _ fun found ↦ ?_
  split
  · exact .refl _
  split
  · exact (hrecur _).bind fun right ↦ hrecur _
  · exact .refl _

theorem approximates_bodyOf (task : Task) :
    Approximates (bodyOf recur task) (bodyOf recur' task) := by
  cases task with
  | group opening => exact approximates_groupBody hrecur opening
  | operand start => exact approximates_operandBody hrecur start
  | expression left least => exact approximates_expressionBody hrecur left least
  | rightOperand right priority => exact approximates_rightOperandBody hrecur right priority

end Bodies

theorem run_performBelow (bound : Nat) (task : Task) (w : Workspace) :
    (performBelow bound task).run.run w
      = if task.weight w.sequence < bound then
          (note (.start task) >>= fun _ ↦
            bodyOf (performBelow (task.weight w.sequence)) task).run.run w
        else (.error .exhausted, w) := by
  rw [performBelow]
  refine (run_bind _ _ w).trans ?_
  change StateT.run (ExceptT.run (if _ then _ else _)) w = _
  split <;> rfl

/-- **A bound on the weight serves as a bound on the depth.** -/
theorem approximates_performBelow {bound depth : Nat} (h : bound ≤ depth) (task : Task) :
    Approximates (performBelow bound task) (perform depth task) := by
  induction depth generalizing bound task with
  | zero =>
    intro w
    rw [run_performBelow, if_neg (by omega)]
    exact .inl rfl
  | succ depth ih =>
    intro w
    rw [run_performBelow]
    split
    · next hweight =>
      -- The calls are bounded by the weight, which leaves room for one level less.
      have hbody : Approximates (bodyOf (performBelow (task.weight w.sequence)) task)
          (bodyOf (perform depth) task) :=
        approximates_bodyOf (fun task' ↦ ih (by omega) task') task
      rw [perform_succ]
      exact Approximates.bind_right _ (fun _ ↦ hbody) w
    · exact .inl rfl

/-! ## The loop over minus signs -/

/-- After a round that took a minus sign out, less is behind the handle. -/
theorem endsAs_minusSignsRound {h : Handle} {cell : Cell} {odd : Bool} {w : Workspace}
    {es before after : List Entry} {again again' : Reduction Bool} (hs : w.sequence.Represents es)
    (hes : es = before ++ (h, cell) :: after)
    (hagain : ∀ (w' : Workspace) (after' : List Entry), after'.length < after.length →
      w'.sequence.Represents (before ++ (h, cell) :: after') →
      w'.sequence.weightBehind h < w.sequence.weightBehind h → EndsAs again again' w') :
    EndsAs (minusSignsRound h odd again) (minusSignsRound h odd again') w := by
  have hes' := hes.trans (List.append_cons before (h, cell) after)
  have hweight := hs.weightBehind_eq hes
  rw [EndsAs, minusSignsRound, minusSignsRound, run_nextOf hs hes, run_nextOf hs hes]
  rcases after with _ | ⟨⟨next, c⟩, after⟩
  · exact ⟨by rintro ⟨⟩, rfl⟩
  rw [firstOf_cons]
  dsimp only
  have hlook : (⟨w.sequence, .look h :: w.history⟩ : Workspace).sequence.Represents es := hs
  rw [run_cellAt hlook hes', run_cellAt hlook hes']
  split
  · subst hes'
    have hs' := hs.remove
    rw [← List.append_cons] at hs'
    have hlook' : (⟨w.sequence, .look next :: .look h :: w.history⟩ : Workspace).sequence.Represents
      _ := hs
    rw [run_edit hlook' (by simp [Edit.target?]), run_edit hlook' (by simp [Edit.target?])]
    refine hagain _ after (Nat.lt_succ_self _) hs' ?_
    rw [hweight, itemsOf_operator, Climbing.weight_cons]
    rw [Edit.apply, hs'.weightBehind_eq rfl, Climbing.Item.weight]
    omega
  · exact ⟨by rintro ⟨⟩, rfl⟩

/-- With room for every cell behind the handle, the loop does the same as with their weight as its
bound. -/
theorem endsAs_dropMinusSigns {h : Handle} {cell : Cell} {limit bound : Nat} {odd : Bool}
    {w : Workspace} {es before after : List Entry} (hs : w.sequence.Represents es)
    (hes : es = before ++ (h, cell) :: after) (hlimit : after.length < limit)
    (hbound : w.sequence.weightBehind h < bound) :
    EndsAs (dropMinusSigns h limit odd) (dropMinusSignsBelow h bound odd) w := by
  induction limit generalizing bound odd w es after with
  | zero => omega
  | succ limit ih =>
    rw [EndsAs, dropMinusSigns_succ, dropMinusSignsBelow, run_get, if_pos hbound]
    refine endsAs_minusSignsRound hs hes fun w' after' hlength hs' hweight ↦ ?_
    exact ih hs' rfl (by omega) hweight

/-- **The loop over minus signs ends by itself**, wherever it begins. -/
theorem endsAs_dropMinusRun {h : Handle} {w : Workspace} {es : List Entry}
    (hs : w.sequence.Represents es) (hh : h ∈ handlesOf es) :
    EndsAs (dropMinusRun h) (dropMinusSignsBelow h (w.sequence.weightBehind h + 1) true) w := by
  obtain ⟨before, cell, after, rfl⟩ := exists_split_of_mem hh
  have hsize := hs.length_le_size
  rw [List.length_append, List.length_cons] at hsize
  rw [EndsAs, dropMinusRun, run_get]
  exact endsAs_dropMinusSigns hs rfl (by omega) (Nat.lt_succ_self _)

end Reduction

end Calculator
