import Calculator.Proofs.Reduction.Chronicle
import Calculator.Reduction.Task

/-!
# Running a reduction step by step

What a run of a reduction ends with, stated of its result and its workspace, and one rule for each
thing a reduction does. A rule asks for the entry it works on and hands the new entries to the rest
of the run, so a run is followed on the entries alone; that the sequence represents them and that
the history is a chronicle is carried along in one fact about the workspace.

## Agreement with a plain computation

A reduction is compared with a computation without a sequence: both exceed the bound, both stop
with the same error, or both answer, and then the answers and the entries are as a relation says.
The rule for a sequence of two reductions treats the three endings once for all.
-/

namespace Calculator

namespace Reduction

open Sequence

/-- A workspace with the given entries, reached from `origin` by moves. -/
def Workspace.Holds (w : Workspace) (origin : Sequence) (entries : List Entry) : Prop :=
  Chronicle origin w.history w.sequence entries

/-- What holds when a reduction ends. -/
def Ensures {α : Type} (m : Reduction α) (w : Workspace)
    (post : Except Fault α → Workspace → Prop) : Prop :=
  post (m.run.run w).1 (m.run.run w).2

/-! ## Exact runs

What the first thing a reduction does leaves for the rest of it to run on. -/

section Runs

variable {α β : Type} {w : Workspace} {es before after : List Entry} {h : Handle} {cell : Cell}

theorem run_bind (m : Reduction β) (f : β → Reduction α) (w : Workspace) :
    (m >>= f).run.run w = match m.run.run w with
      | (.ok b, w') => (f b).run.run w'
      | (.error fault, w') => (.error fault, w') := by
  rw [ExceptT.run_bind, StateT.run_bind]
  rcases m.run.run w with ⟨_ | _, w'⟩ <;> rfl

theorem run_map (f : α → β) (m : Reduction α) (w : Workspace) :
    (f <$> m).run.run w = ((m.run.run w).1.map f, (m.run.run w).2) := by
  rw [map_eq_pure_bind, run_bind]
  rcases m.run.run w with ⟨_ | _, w'⟩ <;> rfl

theorem run_note (step : Step) (f : Unit → Reduction α) (w : Workspace) :
    (note step >>= f).run.run w = (f ()).run.run ⟨w.sequence, step :: w.history⟩ := rfl

theorem run_get (f : Workspace → Reduction α) (w : Workspace) :
    (get >>= f).run.run w = (f w).run.run w := rfl

theorem run_modifyGet (k : Workspace → β × Workspace) (f : β → Reduction α) (w : Workspace) :
    (modifyGet k >>= f).run.run w = (f (k w).1).run.run (k w).2 := rfl

private theorem run_look (hs : w.sequence.Represents es) (hes : es = before ++ (h, cell) :: after)
    (f : Slot → Reduction α) :
    (look h >>= f).run.run w
      = (f ⟨cell, lastOf before, firstOf after⟩).run.run ⟨w.sequence, .look h :: w.history⟩ := by
  rw [look, bind_assoc, run_note, bind_assoc, run_get, hs.slot_eq hes]
  rfl

theorem run_cellAt (hs : w.sequence.Represents es) (hes : es = before ++ (h, cell) :: after)
    (f : Cell → Reduction α) :
    (cellAt h >>= f).run.run w = (f cell).run.run ⟨w.sequence, .look h :: w.history⟩ := by
  rw [cellAt, bind_assoc, run_look hs hes]
  rfl

theorem run_nextOf (hs : w.sequence.Represents es) (hes : es = before ++ (h, cell) :: after)
    (f : Option Handle → Reduction α) :
    (nextOf h >>= f).run.run w
      = (f (firstOf after)).run.run ⟨w.sequence, .look h :: w.history⟩ := by
  rw [nextOf, bind_assoc, run_look hs hes]
  rfl

theorem run_edit {e : Edit} (hs : w.sequence.Represents es)
    (hlive : ∀ h ∈ e.target?, h ∈ handlesOf es) (f : Unit → Reduction α) :
    (edit e >>= f).run.run w
      = (f ()).run.run ⟨e.apply w.sequence, .edit e :: w.history⟩ := by
  have hfault : e.fault? w.sequence = none :=
    fault?_eq_none fun h hh ↦ hs.lt_size (hlive h hh)
  rw [edit, bind_assoc, run_note, bind_assoc, run_modifyGet]
  simp only [hfault]
  rfl

end Runs

/-! ## Rules -/

section Rules

variable {α β γ : Type} {origin : Sequence} {w : Workspace} {es before after : List Entry}
  {h : Handle} {cell : Cell} {post : Except Fault α → Workspace → Prop}

theorem ensures_bind {m : Reduction β} {f : β → Reduction α}
    (hm : Ensures m w fun result w' ↦ match result with
      | .ok b => Ensures (f b) w' post
      | .error fault => post (.error fault) w') :
    Ensures (m >>= f) w post := by
  unfold Ensures at hm ⊢
  rw [run_bind]
  revert hm
  rcases m.run.run w with ⟨_ | _, w'⟩ <;> exact id

theorem ensures_get {f : Workspace → Reduction α} (hf : Ensures (f w) w post) :
    Ensures (get >>= f) w post := hf

theorem ensures_compute {what : Computation} {f : Float → Reduction α}
    (herror : ∀ cause, what.value = .error cause → post (.error (.error cause)) w)
    (hvalue : ∀ value, what.value = .ok value → Ensures (f value) w post) :
    Ensures (compute what >>= f) w post := by
  rw [compute]
  cases h : what.value with
  | error cause => exact herror cause h
  | ok value => exact hvalue value h

/-! ## Looking and editing -/

theorem ensures_note {step : Step} {es' : List Entry} {f : Unit → Reduction α}
    (hw : w.Holds origin es) (hmove : Move w.sequence.slots.size es step es')
    (hsame : step.effect w.sequence = w.sequence)
    (hf : ∀ w', w'.Holds origin es' → Ensures (f ()) w' post) :
    Ensures (note step >>= f) w post := by
  have hstep := Chronicle.step hw hmove
  rw [hsame] at hstep
  rw [Ensures, run_note]
  exact hf _ hstep

theorem ensures_cellAt {f : Cell → Reduction α} (hw : w.Holds origin es)
    (hes : es = before ++ (h, cell) :: after)
    (hf : ∀ w', w'.Holds origin es → Ensures (f cell) w' post) :
    Ensures (cellAt h >>= f) w post := by
  rw [Ensures, run_cellAt hw.represents hes]
  exact hf _ (Chronicle.step hw (.look (by simp [hes])))

theorem ensures_nextOf {f : Option Handle → Reduction α} (hw : w.Holds origin es)
    (hes : es = before ++ (h, cell) :: after)
    (hf : ∀ w', w'.Holds origin es → Ensures (f (firstOf after)) w' post) :
    Ensures (nextOf h >>= f) w post := by
  rw [Ensures, run_nextOf hw.represents hes]
  exact hf _ (Chronicle.step hw (.look (by simp [hes])))

theorem ensures_report {event : Log.Event} {f : Unit → Reduction α} (hw : w.Holds origin es)
    (hf : ∀ w', w'.Holds origin es → Ensures (f ()) w' post) :
    Ensures (report event >>= f) w post :=
  ensures_note hw .report rfl hf

private theorem ensures_edit {e : Edit} {es' : List Entry} {f : Unit → Reduction α}
    (hw : w.Holds origin es) (hmove : Move w.sequence.slots.size es (.edit e) es')
    (hf : ∀ w', w'.Holds origin es' → Ensures (f ()) w' post) :
    Ensures (edit e >>= f) w post := by
  rw [Ensures, run_edit hw.represents fun _ htarget ↦ hmove.mem_of_target? htarget]
  exact hf _ (Chronicle.step hw hmove)

theorem ensures_set {old new : Cell} {f : Unit → Reduction α} (hw : w.Holds origin es)
    (hes : es = before ++ (h, old) :: after) (hold : old.isPlain) (hnew : new.isPlain)
    (hf : ∀ w', w'.Holds origin (before ++ (h, new) :: after) → Ensures (f ()) w' post) :
    Ensures (edit (.set h new) >>= f) w post := by
  subst hes
  exact ensures_edit hw (.set hold hnew) hf

theorem ensures_remove {f : Unit → Reduction α} (hw : w.Holds origin es)
    (hes : es = before ++ (h, cell) :: after) (hremovable : Removable cell (before ++ after))
    (hf : ∀ w', w'.Holds origin (before ++ after) → Ensures (f ()) w' post) :
    Ensures (edit (.remove h) >>= f) w post := by
  subst hes
  exact ensures_edit hw (.remove hremovable) hf

end Rules

/-! ## Agreement -/

section Agreement

variable {α β γ δ : Type} {origin : Sequence} {w : Workspace} {es before after : List Entry}

/-- How a reduction and a plain computation end alike. Whatever the ending, the history is a
chronicle. -/
inductive Agrees (origin : Sequence) (good : α → β → List Entry → Prop) (w : Workspace) :
    ExceptT EvalError Option β → Except Fault α → Prop where
  | exhausted {es : List Entry} : w.Holds origin es →
      Agrees origin good w (ExceptT.mk none) (.error .exhausted)
  | error {es : List Entry} {cause : EvalError} : w.Holds origin es →
      Agrees origin good w (throw cause) (.error (.error cause))
  | value {es : List Entry} {a : α} {b : β} : w.Holds origin es → good a b es →
      Agrees origin good w (pure b) (.ok a)

/-- A reduction ends as a plain computation does; after an answer the two results and the entries
are related by `good`. -/
def Simulates (origin : Sequence) (m : Reduction α) (w : Workspace)
    (good : α → β → List Entry → Prop) (answer : ExceptT EvalError Option β) : Prop :=
  Ensures m w fun result w' ↦ Agrees origin good w' answer result

variable {good : α → β → List Entry → Prop} {good' : γ → δ → List Entry → Prop}

theorem simulates_pure {a : α} {b : β} (hw : w.Holds origin es) (hgood : good a b es) :
    Simulates origin (pure a) w good (pure b) := .value hw hgood

theorem simulates_fail {cause : EvalError} (hw : w.Holds origin es) :
    Simulates origin (fail cause) w good (throw cause) := .error hw

theorem simulates_exhausted (hw : w.Holds origin es) :
    Simulates origin (throw .exhausted) w good (ExceptT.mk none) := .exhausted hw

/-- **The rule for a sequence.** Only where both have answered does the rest matter. -/
theorem Simulates.bind {m : Reduction α} {f : α → Reduction γ} {answer : ExceptT EvalError Option β}
    {k : β → ExceptT EvalError Option δ} (hm : Simulates origin m w good answer)
    (hf : ∀ a b w' es, w'.Holds origin es → good a b es →
      Simulates origin (f a) w' good' (k b)) :
    Simulates origin (m >>= f) w good' (answer >>= k) := by
  refine ensures_bind ?_
  unfold Simulates Ensures at hm
  unfold Ensures
  generalize m.run.run w = r at hm ⊢
  obtain ⟨result, w'⟩ := r
  dsimp only at hm ⊢
  cases hm with
  | exhausted hw => exact .exhausted hw
  | error hw => exact .error hw
  | value hw hgood => exact hf _ _ _ _ hw hgood

end Agreement

end Reduction

end Calculator
