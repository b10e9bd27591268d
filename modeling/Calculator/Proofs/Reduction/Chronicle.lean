import Calculator.Proofs.Sequence.Content
import Calculator.Reduction.Workspace

/-!
# What a reduction can do

The moves of a reduction on the entries of its sequence, one for each kind of step in its history,
and chronicles: histories in which every step is such a move. What a single move keeps therefore
holds at every moment of every run, whether the run succeeds or fails.

## What a move says

A move names only cells that are in the sequence. It never changes a parenthesis: it retags plain
cells, puts plain cells in, and takes out plain cells, an opening parenthesis, or a closing one
whose partner is already out. A task begins only where its place is ready for it.
-/

namespace Calculator

namespace Reduction

open Sequence

/-- What follows a group's content: its closing parenthesis and all behind it. -/
def IsClosing (rest : List Entry) : Prop :=
  ∃ closing opening after, rest = (closing, .closing opening) :: after

/-- Where a task may begin: a group at an opening parenthesis with its partner, an operand anywhere
before the closing parenthesis of a group or at it, and the folding of operators at a number. -/
def Ready : Task → List Entry → Prop
  | .group opening, es => ∃ before inner closing after, IsBody inner ∧
      es = before ++ (opening, .opening closing) ::
        (inner ++ (closing, .closing opening) :: after)
  | .operand start, es => ∃ before body rest, IsBody body ∧ IsClosing rest ∧
      firstOf (body ++ rest) = some start ∧ es = before ++ (body ++ rest)
  | .expression left _, es | .rightOperand left _, es =>
      ∃ before value body rest, IsBody body ∧ IsClosing rest ∧
        es = before ++ (left, .number value) :: (body ++ rest)

/-- Whether a reduction may take a cell out that stands beside `others`. -/
def Removable (cell : Cell) (others : List Entry) : Prop :=
  cell.isPlain ∨ (∃ closing, cell = .opening closing) ∨
    ∃ opening, cell = .closing opening ∧ opening ∉ handlesOf others

/-- One step of a reduction, by what it does to the entries; `fresh` is the handle of a new cell. -/
inductive Move (fresh : Handle) : List Entry → Step → List Entry → Prop where
  | start {es : List Entry} {task : Task} : Ready task es → Move fresh es (.start task) es
  | look {es : List Entry} {h : Handle} : h ∈ handlesOf es → Move fresh es (.look h) es
  | report {es : List Entry} {event : Log.Event} : Move fresh es (.report event) es
  | set {before after : List Entry} {h : Handle} {old new : Cell} : old.isPlain → new.isPlain →
      Move fresh (before ++ (h, old) :: after) (.edit (.set h new)) (before ++ (h, new) :: after)
  | insert {before after : List Entry} {h : Handle} {cell new : Cell} : new.isPlain →
      Move fresh (before ++ (h, cell) :: after) (.edit (.insertBefore h new))
        (before ++ (fresh, new) :: (h, cell) :: after)
  | remove {before after : List Entry} {h : Handle} {cell : Cell} :
      Removable cell (before ++ after) →
      Move fresh (before ++ (h, cell) :: after) (.edit (.remove h)) (before ++ after)

/-- What a step does to the sequence. -/
def Step.effect (s : Sequence) : Step → Sequence
  | .edit e => e.apply s
  | .start _ | .look _ | .report _ => s

/-- A history, the newest step first, that leads from `origin` to a sequence with the given entries
by moves. -/
inductive Chronicle (origin : Sequence) : List Step → Sequence → List Entry → Prop where
  | origin {es : List Entry} : origin.Represents es → Settled es → Chronicle origin [] origin es
  | step {history : List Step} {s : Sequence} {es es' : List Entry} {step : Step} :
      Chronicle origin history s es → Move s.slots.size es step es' →
      Chronicle origin (step :: history) (step.effect s) es'

/-! ## What one move keeps -/

namespace Move

variable {s : Sequence} {es es' : List Entry} {step : Step} {fresh : Handle}

theorem represents (hmove : Move s.slots.size es step es') (hs : s.Represents es) :
    (step.effect s).Represents es' := by
  cases hmove with
  | start _ => exact hs
  | look _ => exact hs
  | report => exact hs
  | set _ _ => exact hs.set _
  | insert _ => exact hs.insertBefore _
  | remove _ => exact hs.remove

theorem settled (hmove : Move fresh es step es') (hes : Settled es) : Settled es' := by
  cases hmove with
  | start _ => exact hes
  | look _ => exact hes
  | report => exact hes
  | set _ hnew =>
    simp only [Settled, List.forall_mem_append, List.forall_mem_cons] at hes ⊢
    exact ⟨hes.1, Cell.isSettled_of_isPlain hnew, hes.2.2⟩
  | insert hnew =>
    simp only [Settled, List.forall_mem_append, List.forall_mem_cons] at hes ⊢
    exact ⟨hes.1, Cell.isSettled_of_isPlain hnew, hes.2⟩
  | remove _ =>
    simp only [Settled, List.forall_mem_append, List.forall_mem_cons] at hes ⊢
    exact ⟨hes.1, hes.2.2⟩

/-- An edit names a cell that is in the sequence. -/
theorem mem_of_target? {e : Edit} {h : Handle} (hmove : Move fresh es (.edit e) es')
    (htarget : e.target? = some h) : h ∈ handlesOf es := by
  cases hmove <;> cases htarget <;> simp

end Move

/-! ## What holds at every moment -/

namespace Chronicle

variable {origin s : Sequence} {history : List Step} {es : List Entry}

theorem represents (h : Chronicle origin history s es) : s.Represents es := by
  induction h with
  | origin hes _ => exact hes
  | step _ hmove ih => exact hmove.represents ih

theorem settled (h : Chronicle origin history s es) : Settled es := by
  induction h with
  | origin _ hes => exact hes
  | step _ hmove ih => exact hmove.settled ih

private theorem eq_replay (h : Chronicle origin history s es) :
    s = origin.replay (history.reverse.filterMap Step.edit?) := by
  induction h with
  | origin _ _ => rfl
  | @step _ _ _ _ step _ _ ih =>
    rw [List.reverse_cons, List.filterMap_append, replay_append, ← ih]
    cases step <;> rfl

/-- The same of steps in the order in which they were taken. -/
theorem eq_replay_of_reverse {steps : List Step} (h : Chronicle origin steps.reverse s es) :
    s = origin.replay (steps.filterMap Step.edit?) := by
  have hs := h.eq_replay
  rwa [List.reverse_reverse] at hs

/-- What was done first is a chronicle of its own. -/
theorem exists_earlier {later earlier : List Step} (h : Chronicle origin (later ++ earlier) s es) :
    ∃ s' es', Chronicle origin earlier s' es' := by
  induction later generalizing s es with
  | nil => exact ⟨s, es, h⟩
  | cons _ later ih =>
    cases h with
    | step h _ => exact ih h

/-- **Every step of a chronicle is a move** from the moment before it. -/
theorem exists_move {later earlier : List Step} {step : Step}
    (h : Chronicle origin (later ++ step :: earlier) s es) :
    ∃ s' es₁ es₂, Chronicle origin earlier s' es₁ ∧ Move s'.slots.size es₁ step es₂ := by
  induction later generalizing s es with
  | nil =>
    cases h with
    | step h hmove => exact ⟨_, _, _, h, hmove⟩
  | cons _ later ih =>
    cases h with
    | step h _ => exact ih h

end Chronicle

end Reduction

end Calculator
