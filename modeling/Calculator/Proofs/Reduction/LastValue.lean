import Calculator.Proofs.Reduction.Descent

/-!
# The last value

The value of a reduction is the last one that its trace tells of, if it tells of any. Whatever a
task computes, the newest value is in the cell of the handle that it answers with: the value was put
there right after it was told of, and nothing that is done later changes what is in a cell.

## Any sequence

This is said of slots and handles as they are. It does not matter whether the slots are linked as
they should be, nor which of them the sequence still holds, so nothing is asked of the workspace but
what it tells. A reduction that stops without a value has nothing to show.
-/

namespace Calculator

/-- The value that an event tells of. -/
def Log.Event.value? : Event → Option Float
  | application _ _ value | combination _ _ _ value => some value
  | token _ | lexError _ | reducing _ | unaryMinusRun _ | binaryMinusRun | result _ | failed _ _
  | noHistory _ => none

namespace Reduction

open Sequence

/-- The value that an entry of a history tells of. -/
def Step.value? (step : Step) : Option Float := step.event?.bind Log.Event.value?

/-! ## Answers -/

section Grants

variable {α β : Type} {w : Workspace} {post : α → Workspace → Prop} {post' : β → Workspace → Prop}

/-- What holds of the answer of a reduction, if it has one. -/
def Grants (m : Reduction α) (w : Workspace) (post : α → Workspace → Prop) : Prop :=
  Ensures m w fun result w' ↦ ∀ a, result = .ok a → post a w'

theorem grants_pure {a : α} (h : post a w) : Grants (pure a) w post := by
  rintro _ ⟨⟩
  exact h

theorem grants_true (m : Reduction α) (w : Workspace) : Grants m w fun _ _ ↦ True :=
  fun _ _ ↦ trivial

theorem grants_throw (fault : Fault) : Grants (throw fault) w post := by
  rintro _ ⟨⟩

theorem grants_fail (cause : EvalError) : Grants (fail cause) w post := grants_throw _

theorem Grants.bind {m : Reduction α} {f : α → Reduction β} (hm : Grants m w post)
    (hf : ∀ a w', post a w' → Grants (f a) w' post') : Grants (m >>= f) w post' := by
  refine ensures_bind ?_
  unfold Grants Ensures at hm
  unfold Ensures
  generalize m.run.run w = r at hm ⊢
  obtain ⟨_ | a, w'⟩ := r
  · rintro _ ⟨⟩
  · exact hf a w' (hm a rfl)

theorem Grants.mono {m : Reduction α} {weaker : α → Workspace → Prop} (hm : Grants m w post)
    (h : ∀ a w', post a w' → weaker a w') : Grants m w weaker :=
  fun a ha ↦ h a _ (hm a ha)

end Grants

/-! ## Since an earlier moment -/

/-- Nothing was computed since an earlier moment of the history. -/
def QuietSince (earlier history : List Step) : Prop :=
  ∃ later, history = later ++ earlier ∧ later.findSome? Step.value? = none

/-- The newest value told of since an earlier moment, if there is any, is in a handle's cell. -/
def TellsLast (earlier : List Step) (w : Workspace) (h : Handle) : Prop :=
  ∃ later, w.history = later ++ earlier ∧ ∀ v, later.findSome? Step.value? = some v →
    w.sequence.slots[h]?.map Slot.cell = some (.number v)

/-- What was done between two workspaces neither computed anything nor changed what is in a cell. -/
structure Undisturbed (w w' : Workspace) : Prop where
  quiet : QuietSince w.history w'.history
  cells (h : Handle) :
    w'.sequence.slots[h]?.map Slot.cell = w.sequence.slots[h]?.map Slot.cell

variable {earlier history : List Step} {w w' w'' : Workspace} {h : Handle}

namespace QuietSince

theorem refl (history : List Step) : QuietSince history history := ⟨[], rfl, rfl⟩

theorem trans {middle : List Step} (h : QuietSince earlier middle)
    (h' : QuietSince middle history) : QuietSince earlier history := by
  obtain ⟨later, rfl, hlater⟩ := h
  obtain ⟨latest, rfl, hlatest⟩ := h'
  exact ⟨latest ++ later, (List.append_assoc _ _ _).symm,
    by rw [List.findSome?_append, hlatest, hlater]; rfl⟩

theorem step {step : Step} (hstep : step.value? = none) (history : List Step) :
    QuietSince history (step :: history) :=
  ⟨[step], rfl, by rw [List.findSome?_cons, hstep]; rfl⟩

private theorem tellsLast (hw : QuietSince earlier w.history) (h : Handle) :
    TellsLast earlier w h := by
  obtain ⟨later, hhistory, hlater⟩ := hw
  refine ⟨later, hhistory, fun v hv ↦ ?_⟩
  rw [hlater] at hv
  cases hv

private theorem suffix (h : QuietSince earlier history) : earlier <:+ history := by
  obtain ⟨later, rfl, -⟩ := h
  exact List.suffix_append later earlier

end QuietSince

theorem Undisturbed.trans (h : Undisturbed w w') (h' : Undisturbed w' w'') :
    Undisturbed w w'' where
  quiet := h.quiet.trans h'.quiet
  cells x := (h'.cells x).trans (h.cells x)

namespace TellsLast

private theorem suffix (hw : TellsLast earlier w h) : earlier <:+ w.history := by
  obtain ⟨later, hhistory, -⟩ := hw
  exact ⟨later, hhistory.symm⟩

theorem undisturbed (hw : TellsLast earlier w h) (h' : Undisturbed w w') :
    TellsLast earlier w' h := by
  obtain ⟨later, hhistory, hlast⟩ := hw
  obtain ⟨latest, hhistory', hlatest⟩ := h'.quiet
  refine ⟨latest ++ later, by rw [hhistory', hhistory, List.append_assoc], fun v hv ↦ ?_⟩
  rw [List.findSome?_append, hlatest] at hv
  exact (h'.cells h).trans (hlast v hv)

end TellsLast

/-! ## Steps -/

theorem cells_remove (s : Sequence) (h j : Handle) :
    (s.remove h).slots[j]?.map Slot.cell = s.slots[j]?.map Slot.cell := by
  cases hslot : s.slots[h]? with
  | none => rw [Sequence.remove, hslot]
  | some slot =>
    cases hlinked : s.isUnlinked h slot with
    | true =>
      rw [Sequence.remove, hslot]
      simp only [hlinked, if_true]
    | false =>
      rw [slots_remove_of_isLinked hslot hlinked, Option.map_map]
      rfl

private theorem cell_set {s : Sequence} (hh : h < s.slots.size) (cell : Cell) :
    (s.set h cell).slots[h]?.map Slot.cell = some cell := by
  rw [Sequence.set, Array.getElem?_modify, if_pos rfl, Array.getElem?_eq_getElem hh]
  rfl

theorem grants_note (step : Step) (w : Workspace) :
    Grants (note step) w fun _ w' ↦ w' = ⟨w.sequence, step :: w.history⟩ := by
  rintro _ ⟨⟩
  rfl

theorem grants_report (event : Log.Event) (w : Workspace) :
    Grants (report event) w fun _ w' ↦ w' = ⟨w.sequence, .report event :: w.history⟩ :=
  grants_note _ w

theorem grants_get (w : Workspace) : Grants get w fun v w' ↦ v = w ∧ w' = w := by
  rintro _ ⟨⟩
  exact ⟨rfl, rfl⟩

theorem undisturbed_note {step : Step} (hstep : step.value? = none) (w : Workspace) :
    Undisturbed w ⟨w.sequence, step :: w.history⟩ := ⟨.step hstep _, fun _ ↦ rfl⟩

private theorem grants_cellAt (h : Handle) (w : Workspace) :
    Grants (cellAt h) w fun cell w' ↦
      Undisturbed w w' ∧ w'.sequence.slots[h]?.map Slot.cell = some cell := by
  rw [cellAt, look, bind_assoc]
  refine (grants_note _ w).bind ?_
  rintro _ _ rfl
  rw [bind_assoc]
  refine (grants_get _).bind ?_
  rintro _ _ ⟨rfl, rfl⟩
  rw [slot]
  cases hslot : w.sequence.slots[h]? with
  | none => exact grants_throw _
  | some slot => exact grants_pure ⟨undisturbed_note rfl w, congrArg (Option.map Slot.cell) hslot⟩

private theorem grants_nextOf (h : Handle) (w : Workspace) :
    Grants (nextOf h) w fun _ w' ↦ Undisturbed w w' := by
  rw [nextOf, look, bind_assoc]
  refine (grants_note _ w).bind ?_
  rintro _ _ rfl
  rw [bind_assoc]
  refine (grants_get _).bind ?_
  rintro _ _ ⟨rfl, rfl⟩
  rw [slot]
  cases w.sequence.slots[h]? with
  | none => exact grants_throw _
  | some slot => exact grants_pure (undisturbed_note rfl w)

private theorem grants_edit (e : Edit) (w : Workspace) :
    Grants (edit e) w fun _ w' ↦ e.fault? w.sequence = none ∧
      w' = ⟨e.apply w.sequence, .edit e :: w.history⟩ := by
  rw [edit]
  refine (grants_note _ w).bind ?_
  rintro _ _ rfl
  rw [Grants, Ensures, run_modifyGet]
  cases hfault : e.fault? w.sequence with
  | some cause => rintro _ ⟨⟩
  | none => exact fun _ _ ↦ ⟨rfl, rfl⟩

private theorem grants_remove (h : Handle) (w : Workspace) :
    Grants (edit (.remove h)) w fun _ w' ↦ Undisturbed w w' := by
  refine (grants_edit _ w).mono ?_
  rintro _ _ ⟨-, rfl⟩
  exact ⟨.step rfl _, cells_remove w.sequence h⟩

/-! ## Parts of a task -/

theorem grants_number (h : Handle) (w : Workspace) :
    Grants (number h) w fun x w' ↦
      Undisturbed w w' ∧ w'.sequence.slots[h]?.map Slot.cell = some (.number x) := by
  rw [number]
  refine (grants_cellAt h w).bind ?_
  rintro cell w' hcell
  cases cell with
  | number x => exact grants_pure hcell
  | _ => exact grants_fail _

private theorem grants_compute (what : Computation) (w : Workspace) :
    Grants (compute what) w fun _ w' ↦ w' = w := by
  rw [compute]
  cases what.value with
  | ok value => exact grants_pure rfl
  | error cause => exact grants_fail _

private theorem grants_operatorAfter (h : Handle) (w : Workspace) :
    Grants (operatorAfter h) w fun _ w' ↦ Undisturbed w w' := by
  rw [operatorAfter]
  refine (grants_nextOf h w).bind ?_
  rintro next w₁ h₁
  cases next with
  | none => exact grants_pure h₁
  | some next =>
    refine (grants_cellAt next w₁).bind ?_
    rintro cell w₂ ⟨h₂, -⟩
    cases cell with
    | operator symbol => exact grants_pure (h₁.trans h₂)
    | _ => exact grants_pure (h₁.trans h₂)

theorem grants_missingOperand {α : Type} {post : α → Workspace → Prop} (h : Handle)
    (w : Workspace) : Grants (missingOperand h) w post := by
  rw [missingOperand]
  refine (grants_nextOf h w).bind ?_
  rintro next w₁ -
  cases next with
  | none => exact grants_fail _
  | some next =>
    refine (grants_cellAt h w₁).bind ?_
    rintro cell w₂ -
    exact grants_fail _

/-- The loop takes out minus signs, and computes nothing. -/
private theorem grants_dropMinusSigns (h : Handle) (limit : Nat) (odd : Bool) (w : Workspace) :
    Grants (dropMinusSigns h limit odd) w fun _ w' ↦ Undisturbed w w' := by
  induction limit generalizing odd w with
  | zero => exact grants_throw _
  | succ limit ih =>
    rw [dropMinusSigns]
    refine (grants_nextOf h w).bind ?_
    rintro next w₁ h₁
    cases next with
    | none => exact grants_pure h₁
    | some next =>
      refine (grants_cellAt next w₁).bind ?_
      rintro cell w₂ ⟨h₂, -⟩
      split
      · refine (grants_remove next w₂).bind ?_
        rintro _ w₃ h₃
        refine (ih _ w₃).mono ?_
        rintro _ w₄ h₄
        exact ((h₁.trans h₂).trans h₃).trans h₄
      · exact grants_pure (h₁.trans h₂)

private theorem grants_dropMinusRun (h : Handle) (w : Workspace) :
    Grants (dropMinusRun h) w fun _ w' ↦ Undisturbed w w' := by
  rw [dropMinusRun]
  refine (grants_get w).bind ?_
  rintro _ _ ⟨rfl, rfl⟩
  exact grants_dropMinusSigns h _ _ _

private theorem grants_collapseMinusRun (h : Handle) (w : Workspace) :
    Grants (collapseMinusRun h) w fun _ w' ↦ QuietSince w.history w'.history := by
  rw [collapseMinusRun]
  refine (grants_cellAt h w).bind ?_
  rintro cell w₁ ⟨h₁, -⟩
  split
  · refine (grants_dropMinusRun h w₁).bind ?_
    rintro odd w₂ h₂
    have hquiet := (h₁.trans h₂).quiet
    cases odd with
    | true => exact grants_pure hquiet
    | false =>
      refine (grants_report _ w₂).bind ?_
      rintro _ _ rfl
      refine (grants_edit _ _).mono ?_
      rintro _ _ ⟨-, rfl⟩
      exact (hquiet.trans (.step rfl _)).trans (.step rfl _)
  · exact grants_pure h₁.quiet

private theorem grants_negate (h : Handle) (w : Workspace) :
    Grants (negate h) w fun _ w' ↦ QuietSince w.history w'.history := by
  rw [negate]
  refine (grants_dropMinusRun h w).bind ?_
  rintro odd w₁ h₁
  refine (grants_nextOf h w₁).bind ?_
  rintro next w₂ h₂
  cases next with
  | none => exact grants_fail _
  | some operand =>
    refine (grants_report _ w₂).bind ?_
    rintro _ _ rfl
    refine (grants_edit _ _).bind ?_
    rintro _ _ ⟨-, rfl⟩
    refine (grants_edit _ _).bind ?_
    rintro _ _ ⟨-, rfl⟩
    have hquiet := (h₁.trans h₂).quiet
    exact grants_pure (((hquiet.trans (.step rfl _)).trans (.step rfl _)).trans (.step rfl _))

/-- A value that is told of and put in a cell is the newest value, and in that cell. -/
private theorem grants_value {α : Type} {event : Log.Event} {value : Float}
    {rest : Unit → Reduction α} {post : α → Workspace → Prop} (hevent : event.value? = some value)
    (hearlier : earlier <:+ w.history)
    (hrest : ∀ w', TellsLast earlier w' h → Grants (rest ()) w' post) :
    Grants (report event >>= fun _ ↦ edit (.set h (.number value)) >>= rest) w post := by
  refine (grants_report event w).bind ?_
  rintro _ _ rfl
  refine (grants_edit _ _).bind ?_
  rintro _ _ ⟨hfault, rfl⟩
  have hh : h < w.sequence.slots.size := by
    by_contra hh
    simp [Edit.fault?, Edit.target?, hh] at hfault
  obtain ⟨later, hlater⟩ := hearlier
  refine hrest _ ⟨.edit (.set h (.number value)) :: .report event :: later, ?_, fun v hv ↦ ?_⟩
  · rw [← hlater]
    rfl
  · have hset : (Step.edit (.set h (.number value))).value? = none := rfl
    have hreport : (Step.report event).value? = some value := hevent
    simp only [List.findSome?_cons, hset, hreport] at hv
    cases hv
    exact cell_set hh _

private theorem grants_combine (left operator right : Handle) (hearlier : earlier <:+ w.history) :
    Grants (combine left operator right) w fun h w' ↦ TellsLast earlier w' h := by
  rw [combine]
  refine (grants_number left w).bind ?_
  rintro x w₁ ⟨h₁, -⟩
  refine (grants_number right w₁).bind ?_
  rintro y w₂ ⟨h₂, -⟩
  refine (grants_cellAt operator w₂).bind ?_
  rintro cell w₃ ⟨h₃, -⟩
  have hearlier' := hearlier.trans ((h₁.trans h₂).trans h₃).quiet.suffix
  split
  · refine (grants_compute _ w₃).bind ?_
    rintro value _ rfl
    refine grants_value rfl hearlier' fun w₄ h₄ ↦ ?_
    refine (grants_remove operator w₄).bind ?_
    rintro _ w₅ h₅
    refine (grants_remove right w₅).bind ?_
    rintro _ w₆ h₆
    exact grants_pure ((h₄.undisturbed h₅).undisturbed h₆)
  · exact grants_fail _

/-! ## The tasks -/

/-- Where a task begins: at a number that is the newest value or with nothing told of yet. -/
def Task.Begins (earlier : List Step) (w : Workspace) : Task → Prop
  | .group _ | .operand _ => QuietSince earlier w.history
  | .expression left _ => TellsLast earlier w left
  | .rightOperand right _ => TellsLast earlier w right

theorem Task.Begins.undisturbed {task : Task} (hw : task.Begins earlier w)
    (h : Undisturbed w w') : task.Begins earlier w' := by
  cases task with
  | group opening => exact hw.trans h.quiet
  | operand start => exact hw.trans h.quiet
  | expression left least => exact TellsLast.undisturbed hw h
  | rightOperand right priority => exact TellsLast.undisturbed hw h

/-- A way to do tasks leaves the newest value at the handle that it answers with. -/
def LeavesLast (recur : Task → Reduction Handle) : Prop :=
  ∀ (earlier : List Step) (task : Task) (w : Workspace), task.Begins earlier w →
    Grants (recur task) w fun h w' ↦ TellsLast earlier w' h

section Bodies

variable {recur : Task → Reduction Handle} (hrecur : LeavesLast recur)

include hrecur

private theorem grants_groupBody (opening : Handle) (hw : QuietSince earlier w.history) :
    Grants (groupBody recur opening) w fun h w' ↦ TellsLast earlier w' h := by
  rw [groupBody]
  refine (grants_cellAt opening w).bind ?_
  rintro cell w₁ ⟨h₁, -⟩
  split
  · refine (grants_nextOf opening w₁).bind ?_
    rintro first w₂ h₂
    split
    · exact grants_fail _
    split
    · exact grants_fail _
    refine (hrecur earlier (.operand _) w₂ (hw.trans (h₁.trans h₂).quiet)).bind ?_
    rintro value w₃ h₃
    refine (hrecur earlier (.expression value 1) w₃ h₃).bind ?_
    rintro value w₄ h₄
    refine (grants_nextOf value w₄).bind ?_
    rintro next w₅ h₅
    split
    · exact grants_fail _
    split
    · refine (grants_remove opening w₅).bind ?_
      rintro _ w₆ h₆
      refine (grants_remove _ w₆).bind ?_
      rintro _ w₇ h₇
      exact grants_pure (h₄.undisturbed ((h₅.trans h₆).trans h₇))
    · refine (grants_cellAt _ w₅).bind ?_
      rintro other w₆ -
      exact grants_fail _
  · exact grants_fail _

private theorem grants_applicationBody (h : Handle) (name : String)
    (hw : QuietSince earlier w.history) :
    Grants (applicationBody recur h name) w fun h w' ↦ TellsLast earlier w' h := by
  rw [applicationBody]
  refine (grants_nextOf h w).bind ?_
  rintro next w₁ h₁
  split
  · exact grants_fail _
  refine (grants_cellAt _ w₁).bind ?_
  rintro cell w₂ ⟨h₂, -⟩
  split
  · refine (hrecur earlier (.group _) w₂ (hw.trans (h₁.trans h₂).quiet)).bind ?_
    rintro argument w₃ h₃
    refine (grants_number argument w₃).bind ?_
    rintro x w₄ ⟨h₄, -⟩
    refine (grants_compute _ w₄).bind ?_
    rintro value _ rfl
    refine grants_value rfl (h₃.undisturbed h₄).suffix fun w₅ h₅ ↦ ?_
    refine (grants_remove argument w₅).bind ?_
    rintro _ w₆ h₆
    exact grants_pure (h₅.undisturbed h₆)
  · exact grants_fail _

private theorem grants_operandBody (start : Handle) (hw : QuietSince earlier w.history) :
    Grants (operandBody recur start) w fun h w' ↦ TellsLast earlier w' h := by
  rw [operandBody]
  refine (grants_cellAt start w).bind ?_
  rintro cell w₁ ⟨h₁, -⟩
  have hw₁ := hw.trans h₁.quiet
  split
  · exact grants_pure (hw₁.tellsLast start)
  · exact hrecur earlier (.group start) w₁ hw₁
  · exact grants_applicationBody hrecur start _ hw₁
  · refine (grants_negate start w₁).mono ?_
    rintro h w₂ h₂
    exact (hw₁.trans h₂).tellsLast h
  · exact grants_missingOperand start w₁

private theorem grants_expressionBody (left : Handle) (least : Nat)
    (hw : TellsLast earlier w left) :
    Grants (expressionBody recur left least) w fun h w' ↦ TellsLast earlier w' h := by
  rw [expressionBody]
  refine (grants_operatorAfter left w).bind ?_
  rintro found w₁ h₁
  split
  · exact grants_pure (hw.undisturbed h₁)
  split
  · exact grants_pure (hw.undisturbed h₁)
  refine (grants_collapseMinusRun _ w₁).bind ?_
  rintro _ w₂ h₂
  refine (grants_nextOf _ w₂).bind ?_
  rintro next w₃ h₃
  split
  · exact grants_fail _
  -- What is told of while the right operand is computed is not the last of this task.
  refine (hrecur w₃.history (.operand _) w₃ (.refl _)).bind ?_
  rintro right w₄ h₄
  refine (hrecur w₃.history (.rightOperand right _) w₄ h₄).bind ?_
  rintro right w₅ h₅
  have hearlier := ((hw.undisturbed h₁).suffix.trans (h₂.trans h₃.quiet).suffix).trans h₅.suffix
  refine (grants_combine left _ right hearlier).bind ?_
  rintro left w₆ h₆
  exact hrecur earlier (.expression left least) w₆ h₆

private theorem grants_rightOperandBody (right : Handle) (priority : Nat)
    (hw : TellsLast earlier w right) :
    Grants (rightOperandBody recur right priority) w fun h w' ↦ TellsLast earlier w' h := by
  rw [rightOperandBody]
  refine (grants_operatorAfter right w).bind ?_
  rintro found w₁ h₁
  split
  · exact grants_pure (hw.undisturbed h₁)
  split
  · refine (hrecur earlier (.expression right _) w₁ (hw.undisturbed h₁)).bind ?_
    rintro right w₂ h₂
    exact hrecur earlier (.rightOperand right priority) w₂ h₂
  · exact grants_pure (hw.undisturbed h₁)

private theorem leavesLast_bodyOf : LeavesLast (bodyOf recur) := by
  intro earlier task w hw
  cases task with
  | group opening => exact grants_groupBody hrecur opening hw
  | operand start => exact grants_operandBody hrecur start hw
  | expression left least => exact grants_expressionBody hrecur left least hw
  | rightOperand right priority => exact grants_rightOperandBody hrecur right priority hw

end Bodies

/-- **Every task answers with the handle of the newest value.** -/
theorem leavesLast_perform (depth : Nat) : LeavesLast (perform depth) := by
  induction depth with
  | zero => exact fun _ _ _ _ ↦ grants_throw _
  | succ depth ih =>
    intro earlier task w hw
    rw [perform_succ]
    refine (grants_note _ w).bind ?_
    rintro _ _ rfl
    exact leavesLast_bodyOf ih earlier task _ (hw.undisturbed (undisturbed_note rfl w))

end Reduction

end Calculator
