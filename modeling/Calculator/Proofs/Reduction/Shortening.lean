import Calculator.Proofs.Reduction.LastValue
import Calculator.Proofs.Reduction.Parts

/-!
# What a task leaves behind its place

A task that answers has taken entries away from its place on and put a few plain ones there. All it
takes at once is a front of what stands there, and no group is taken in part. So the parenthesis
that closes the group around the place stays where it is, with all that is behind it, and nothing
before the place is touched.

## Any brackets

A reduction is asked here for what it does where it answers, and not for whether it answers. That
asks less of the entries than following it to its end: every opening parenthesis has its partner,
but the two need not be in order, and a closing one may stand alone. The moment between the removals
of the two parentheses of a group is then like any other, and so is a place that no task begins at.

## Products that were not there

A run of minus signs in front of an operand leaves a product. If the task ends there, the product
stands before what is left, so what is behind the answer is no part of what was there before. It is
such a part but for plain entries in front, and this much is kept from one task to the next.
-/

namespace Calculator

namespace Reduction

open Sequence

variable {es es' es'' before after after' : List Entry} {h opening closing : Handle}
  {cell old new : Cell}

/-! ## Taking from the front -/

/-- Entries with the partner of every closing parenthesis among them. -/
def IsWhole (entries : List Entry) : Prop :=
  ∀ opening closing, (closing, .closing opening) ∈ entries → (opening, .opening closing) ∈ entries

/-- The first entries were taken away, no group in part, and plain ones put in their place. -/
def Shortens (es es' : List Entry) : Prop :=
  ∃ taken put left, es = taken ++ left ∧ es' = put ++ left ∧ IsWhole taken ∧
    ∀ e ∈ put, e.2.isPlain

theorem IsWhole.append (hes : IsWhole es) (hes' : IsWhole es') : IsWhole (es ++ es') := by
  intro opening closing hmem
  rcases List.mem_append.mp hmem with hmem | hmem
  · exact List.mem_append_left _ (hes _ _ hmem)
  · exact List.mem_append_right _ (hes' _ _ hmem)

private theorem isWhole_of_isPlain (hes : ∀ e ∈ es, e.2.isPlain) : IsWhole es := by
  intro opening closing hmem
  cases hes _ hmem

/-- Plain entries in front have no part in a group. -/
theorem IsWhole.of_append (hplain : ∀ e ∈ es, e.2.isPlain) (hwhole : IsWhole (es ++ es')) :
    IsWhole es' := by
  intro opening closing hmem
  rcases List.mem_append.mp (hwhole _ _ (List.mem_append_right _ hmem)) with hmem' | hmem'
  · cases hplain _ hmem'
  · exact hmem'

namespace Shortens

theorem refl (es : List Entry) : Shortens es es :=
  ⟨[], [], es, rfl, rfl, by rintro _ _ ⟨⟩, by rintro _ ⟨⟩⟩

theorem take (hplain : cell.isPlain) (es : List Entry) : Shortens ((h, cell) :: es) es :=
  ⟨[(h, cell)], [], es, rfl, rfl, isWhole_of_isPlain (by simpa using hplain), by rintro _ ⟨⟩⟩

private theorem put (hplain : cell.isPlain) (hes : Shortens es es') :
    Shortens es ((h, cell) :: es') := by
  obtain ⟨taken, put, left, rfl, rfl, hwhole, hput⟩ := hes
  exact ⟨taken, (h, cell) :: put, left, rfl, rfl, hwhole, List.forall_mem_cons.mpr ⟨hplain, hput⟩⟩

/-- Where more is taken than was put in before, the rest of it was there from the beginning. -/
theorem trans (hes : Shortens es es') (hes' : Shortens es' es'') : Shortens es es'' := by
  obtain ⟨taken, put, left, rfl, rfl, hwhole, hput⟩ := hes
  obtain ⟨taken', put', left', hsplit, rfl, hwhole', hput'⟩ := hes'
  rcases List.append_eq_append_iff.mp hsplit with ⟨mid, rfl, rfl⟩ | ⟨mid, rfl, rfl⟩
  · exact ⟨taken ++ mid, put', left', (List.append_assoc _ _ _).symm, rfl,
      hwhole.append (hwhole'.of_append hput), hput'⟩
  · refine ⟨taken, put' ++ mid, left, rfl, (List.append_assoc _ _ _).symm, hwhole, ?_⟩
    exact List.forall_mem_append.mpr ⟨hput', fun e he ↦ hput e (List.mem_append_right _ he)⟩

/-- A plain cell is retagged, and what is behind it shortened. -/
theorem renew (hold : old.isPlain) (hnew : new.isPlain) (hes : Shortens after after') :
    Shortens ((h, old) :: after) ((h, new) :: after') :=
  ((take hold after).trans hes).put hnew

/-- In front of a parenthesis nothing was put in, so it stands where it stood. -/
theorem exists_of_closing (hes : Shortens es ((closing, .closing opening) :: after)) :
    ∃ taken, es = taken ++ (closing, .closing opening) :: after ∧ IsWhole taken := by
  obtain ⟨taken, put, left, rfl, hleft, hwhole, hput⟩ := hes
  cases put with
  | nil =>
    rw [List.nil_append] at hleft
    exact ⟨taken, by rw [hleft], hwhole⟩
  | cons e put =>
    obtain ⟨rfl, -⟩ := List.cons.inj hleft
    cases hput _ List.mem_cons_self

/-- A group of which only a number is left is replaced by it. -/
theorem group (hcell : cell.isPlain)
    (hes : Shortens es ((h, cell) :: (closing, .closing opening) :: after)) :
    Shortens ((opening, .opening closing) :: es) ((h, cell) :: after) := by
  obtain ⟨taken, rfl, hwhole⟩ := (hes.trans (take hcell _)).exists_of_closing
  refine ⟨(opening, .opening closing) :: (taken ++ [(closing, .closing opening)]), [(h, cell)],
    after, by simp, rfl, ?_, by simpa using hcell⟩
  intro o c hmem
  rcases List.mem_cons.mp hmem with heq | hmem
  · cases heq
  rcases List.mem_append.mp hmem with hmem | hmem
  · exact List.mem_cons_of_mem _ (List.mem_append_left _ (hwhole o c hmem))
  · cases List.mem_singleton.mp hmem
    exact List.mem_cons_self

/-- **A parenthesis that closes a group around all these entries stays**, with all behind it. -/
theorem exists_closing {inner behind : List Entry} (hes : Shortens es es')
    (hsplit : es = inner ++ (closing, .closing opening) :: behind)
    (hout : (opening, .opening closing) ∉ es) :
    ∃ inner', es' = inner' ++ (closing, .closing opening) :: behind := by
  obtain ⟨taken, put, left, rfl, rfl, hwhole, -⟩ := hes
  rcases split_append hsplit with ⟨mid, rfl, -⟩ | ⟨mid, rfl, -⟩
  · exact absurd (List.mem_append_left _ (hwhole opening closing (by simp))) hout
  · exact ⟨put ++ mid, (List.append_assoc _ _ _).symm⟩

end Shortens

/-! ## Entries with partners -/

/-- Entries with the partner of every opening parenthesis among them. -/
def ClosesAll (entries : List Entry) : Prop :=
  ∀ opening closing, (opening, .opening closing) ∈ entries → (closing, .closing opening) ∈ entries

theorem Move.closesAll {fresh : Handle} {step : Step} (hmove : Move fresh es step es')
    (hes : ClosesAll es) : ClosesAll es' := by
  cases hmove with
  | start _ => exact hes
  | look _ => exact hes
  | report => exact hes
  | set hold hnew =>
    intro o c hmem
    have hopening := hes o c
    grind [Cell.isPlain]
  | insert hnew =>
    intro o c hmem
    have hopening := hes o c
    grind [Cell.isPlain]
  | @remove before after h cell hremovable =>
    intro o c hmem
    have hclosing := hes o c (by grind)
    -- Only an opening parenthesis that is still there could miss the cell that was taken out.
    have hne : (c, Cell.closing o) ≠ (h, cell) := by
      rintro ⟨⟩
      rcases hremovable with hplain | ⟨_, ⟨⟩⟩ | ⟨_, ⟨⟩, hnot⟩
      · cases hplain
      · exact hnot (List.mem_map_of_mem hmem)
    grind

/-- A workspace with the given entries, whatever led to them. -/
structure Workspace.HasEntries (w : Workspace) (entries : List Entry) : Prop where
  represents : w.sequence.Represents entries
  settled : Settled entries
  closesAll : ClosesAll entries

/-! ## Rules

What a reduction grants on entries, one rule for each thing it does. -/

section Rules

variable {α : Type} {w : Workspace} {post : α → Workspace → Prop}

namespace Workspace.HasEntries

/-- The entries are those of the sequence alone. -/
theorem same (hw : w.HasEntries es) (history : List Step) :
    HasEntries ⟨w.sequence, history⟩ es := ⟨hw.represents, hw.settled, hw.closesAll⟩

theorem isPlain (hw : w.HasEntries es) {x : Float}
    (hes : es = before ++ (h, .number x) :: after) : (Cell.number x).isPlain :=
  hw.settled (h, .number x) (by simp [hes])

/-- The cell that has the handle of an opening parenthesis' partner is the partner. -/
theorem eq_closing (hw : w.HasEntries es) (hopening : (opening, .opening closing) ∈ es)
    (hcell : (closing, cell) ∈ es) : cell = .closing opening := by
  have hpartner := hw.represents.cell_eq (hw.closesAll opening closing hopening)
  exact Option.some.inj ((hw.represents.cell_eq hcell).symm.trans hpartner)

theorem note {f : Unit → Reduction α} (hw : w.HasEntries es) (step : Step)
    (hf : ∀ w' : Workspace, w'.HasEntries es → Grants (f ()) w' post) :
    Grants (Reduction.note step >>= f) w post := by
  rw [Grants, Ensures, run_note]
  exact hf _ (hw.same _)

theorem report {f : Unit → Reduction α} (hw : w.HasEntries es) (event : Log.Event)
    (hf : ∀ w' : Workspace, w'.HasEntries es → Grants (f ()) w' post) :
    Grants (Reduction.report event >>= f) w post :=
  hw.note _ hf

theorem cellAt {f : Cell → Reduction α} (hw : w.HasEntries es)
    (hes : es = before ++ (h, cell) :: after)
    (hf : ∀ w' : Workspace, w'.HasEntries es → Grants (f cell) w' post) :
    Grants (Reduction.cellAt h >>= f) w post := by
  rw [Grants, Ensures, run_cellAt hw.represents hes]
  exact hf _ (hw.same _)

theorem nextOf {f : Option Handle → Reduction α} (hw : w.HasEntries es)
    (hes : es = before ++ (h, cell) :: after)
    (hf : ∀ w' : Workspace, w'.HasEntries es → Grants (f (firstOf after)) w' post) :
    Grants (Reduction.nextOf h >>= f) w post := by
  rw [Grants, Ensures, run_nextOf hw.represents hes]
  exact hf _ (hw.same _)

theorem operatorAfter {f : Option (Handle × Nat) → Reduction α} (hw : w.HasEntries es)
    (hes : es = before ++ (h, cell) :: after)
    (hf : ∀ w' : Workspace, w'.HasEntries es → Grants (f (operatorIn after)) w' post) :
    Grants (Reduction.operatorAfter h >>= f) w post := by
  obtain ⟨history, hrun⟩ := run_operatorAfter hw.represents hes
  rw [Grants, Ensures, hrun]
  exact hf _ (hw.same _)

theorem number {f : Float → Reduction α} {x : Float} (hw : w.HasEntries es)
    (hes : es = before ++ (h, .number x) :: after)
    (hf : ∀ w' : Workspace, w'.HasEntries es → Grants (f x) w' post) :
    Grants (Reduction.number h >>= f) w post := by
  rw [Reduction.number, bind_assoc]
  exact hw.cellAt hes hf

theorem edit {e : Edit} {f : Unit → Reduction α} (hw : w.HasEntries es)
    (hmove : Move w.sequence.slots.size es (.edit e) es')
    (hf : ∀ w' : Workspace, w'.HasEntries es' → Grants (f ()) w' post) :
    Grants (Reduction.edit e >>= f) w post := by
  rw [Grants, Ensures, run_edit hw.represents fun _ htarget ↦ hmove.mem_of_target? htarget]
  exact hf _ ⟨hmove.represents hw.represents, hmove.settled hw.settled,
    hmove.closesAll hw.closesAll⟩

theorem set {f : Unit → Reduction α} (hw : w.HasEntries es)
    (hes : es = before ++ (h, old) :: after) (hold : old.isPlain) (hnew : new.isPlain)
    (hf : ∀ w' : Workspace, w'.HasEntries (before ++ (h, new) :: after) → Grants (f ()) w' post) :
    Grants (Reduction.edit (.set h new) >>= f) w post := by
  subst hes
  exact hw.edit (.set hold hnew) hf

theorem remove {f : Unit → Reduction α} (hw : w.HasEntries es)
    (hes : es = before ++ (h, cell) :: after) (hremovable : Removable cell (before ++ after))
    (hf : ∀ w' : Workspace, w'.HasEntries (before ++ after) → Grants (f ()) w' post) :
    Grants (Reduction.edit (.remove h) >>= f) w post := by
  subst hes
  exact hw.edit (.remove hremovable) hf

end Workspace.HasEntries

private theorem grants_compute_bind {what : Computation} {f : Float → Reduction α}
    (hf : ∀ value : Float, value.isFinite → Grants (f value) w post) :
    Grants (compute what >>= f) w post :=
  ensures_compute (fun _ _ ↦ by rintro _ ⟨⟩) fun value hvalue ↦
    hf value (Computation.isFinite_of_value hvalue)

end Rules

/-! ## Minus signs -/

section Parts

variable {w : Workspace}

/-- The workspace after a part of a task: the cell at `h` is in its place, and what is behind it is
shortened. -/
def LeavesBehind (before : List Entry) (h : Handle) (cell : Cell) (after : List Entry)
    (w : Workspace) : Prop :=
  ∃ after', w.HasEntries (before ++ (h, cell) :: after') ∧ Shortens after after'

private theorem leaves_dropMinusSigns (limit : Nat) (odd : Bool)
    (hw : w.HasEntries (before ++ (h, cell) :: after)) :
    Grants (dropMinusSigns h limit odd) w fun _ w' ↦ LeavesBehind before h cell after w' := by
  induction limit generalizing odd w after with
  | zero => exact grants_throw _
  | succ limit ih =>
    rw [dropMinusSigns]
    refine hw.nextOf rfl fun w hw ↦ ?_
    rcases after with _ | ⟨⟨next, c⟩, after⟩
    · exact grants_pure ⟨[], hw, .refl _⟩
    refine hw.cellAt (List.append_cons _ _ _) fun w hw ↦ ?_
    split
    · refine hw.remove (List.append_cons _ _ _) (.inl rfl) fun w hw ↦ ?_
      rw [← List.append_cons] at hw
      refine (ih _ hw).mono ?_
      rintro _ w ⟨after', hw, hafter⟩
      exact ⟨after', hw, (Shortens.take rfl after).trans hafter⟩
    · exact grants_pure ⟨_, hw, .refl _⟩

private theorem leaves_dropMinusRun (hw : w.HasEntries (before ++ (h, cell) :: after)) :
    Grants (dropMinusRun h) w fun _ w' ↦ LeavesBehind before h cell after w' :=
  leaves_dropMinusSigns _ true hw

private theorem leaves_collapseMinusRun {symbol : Char}
    (hw : w.HasEntries (before ++ (h, .operator symbol) :: after)) :
    Grants (collapseMinusRun h) w fun _ w' ↦
      ∃ symbol, LeavesBehind before h (.operator symbol) after w' := by
  rw [collapseMinusRun]
  refine hw.cellAt rfl fun w hw ↦ ?_
  split
  · refine (leaves_dropMinusRun hw).bind ?_
    rintro odd w ⟨after', hw, hafter⟩
    split
    · exact grants_pure ⟨symbol, after', hw, hafter⟩
    · refine hw.report _ fun w hw ↦ ?_
      rw [← bind_pure (edit _)]
      refine hw.set rfl rfl rfl fun w hw ↦ ?_
      exact grants_pure ⟨'+', after', hw, hafter⟩
  · exact grants_pure ⟨symbol, after, hw, .refl _⟩

/-! ## Answers -/

/-- The workspace after a task that answered with `h`: a number is there, and it and what is behind
it are what the entries from the task's place on were shortened to. -/
def Reaches (before place : List Entry) (h : Handle) (w : Workspace) : Prop :=
  ∃ x after', w.HasEntries (before ++ (h, .number x) :: after') ∧
    Shortens place ((h, .number x) :: after')

private theorem reaches_negate (hw : w.HasEntries (before ++ (h, .operator '-') :: after)) :
    Grants (negate h) w (Reaches before ((h, .operator '-') :: after)) := by
  rw [negate]
  refine (leaves_dropMinusRun hw).bind ?_
  rintro odd w ⟨after', hw, hafter⟩
  refine hw.nextOf rfl fun w hw ↦ ?_
  rcases after' with _ | ⟨⟨next, c⟩, after'⟩
  · exact grants_fail _
  have hsign := Climbing.isFinite_sign odd
  refine hw.report _ fun w hw ↦ ?_
  refine hw.set rfl rfl hsign fun w hw ↦ ?_
  rw [List.append_cons] at hw
  refine hw.edit (.insert rfl) fun w hw ↦ ?_
  rw [← List.append_cons] at hw
  exact grants_pure ⟨_, _, hw, .renew rfl hsign (.put rfl hafter)⟩

private theorem hasEntries_combine {operator right : Handle} {x y : Float} {symbol : Char}
    (hw : w.HasEntries (before ++ (h, .number x) :: (operator, .operator symbol) ::
      (right, .number y) :: after)) :
    Grants (combine h operator right) w fun h' w' ↦ h' = h ∧
      ∃ z, w'.HasEntries (before ++ (h, .number z) :: after) := by
  have hoperator := List.append_cons before (h, .number x) ((operator, .operator symbol) ::
    (right, .number y) :: after)
  have hright := hoperator.trans (List.append_cons _ _ _)
  rw [combine]
  refine hw.number rfl fun w hw ↦ ?_
  refine hw.number hright fun w hw ↦ ?_
  refine hw.cellAt hoperator fun w hw ↦ ?_
  refine grants_compute_bind fun z hz ↦ ?_
  refine hw.report _ fun w hw ↦ ?_
  refine hw.set rfl (hw.isPlain rfl) hz fun w hw ↦ ?_
  refine hw.remove (List.append_cons _ _ _) (.inl rfl) fun w hw ↦ ?_
  refine hw.remove rfl (.inl (hw.isPlain rfl)) fun w hw ↦ ?_
  rw [← List.append_cons] at hw
  exact grants_pure ⟨rfl, z, hw⟩

end Parts

/-! ## Tasks -/

/-- The workspace after operators were folded into the number at `left`: what is behind it is
shortened, and begins with no operator of priority `least` or above. -/
def Folds (before : List Entry) (left : Handle) (after : List Entry) (least : Nat)
    (w : Workspace) : Prop :=
  ∃ x after', w.HasEntries (before ++ (left, .number x) :: after') ∧ Shortens after after' ∧
    ∀ operator p, operatorIn after' = some (operator, p) → p < least

/-- A way to do tasks keeps to what is behind a task's place. -/
structure KeepsBehind (recur : Task → Reduction Handle) : Prop where
  group {w : Workspace} {before after : List Entry} {opening closing : Handle} :
    w.HasEntries (before ++ (opening, .opening closing) :: after) →
      Grants (recur (.group opening)) w (Reaches before ((opening, .opening closing) :: after))
  operand {w : Workspace} {before after : List Entry} {start : Handle} {cell : Cell} :
    w.HasEntries (before ++ (start, cell) :: after) →
      Grants (recur (.operand start)) w (Reaches before ((start, cell) :: after))
  expression {w : Workspace} {before after : List Entry} {left : Handle} {x : Float}
      {least : Nat} :
    w.HasEntries (before ++ (left, .number x) :: after) →
      Grants (recur (.expression left least)) w fun h w' ↦
        h = left ∧ Folds before left after least w'
  rightOperand {w : Workspace} {before after : List Entry} {right : Handle} {y : Float}
      {priority : Nat} :
    w.HasEntries (before ++ (right, .number y) :: after) →
      Grants (recur (.rightOperand right priority)) w fun h w' ↦
        h = right ∧ ∃ y, LeavesBehind before right (.number y) after w'

section Bodies

variable {recur : Task → Reduction Handle} {w : Workspace}

/-- The end of a group: where only its closing parenthesis follows, the number in it is left. -/
private theorem reaches_closeGroup {inner : List Entry} {value : Handle} {y : Float}
    (hw : w.HasEntries (before ++ (opening, .opening closing) :: (value, .number y) :: after))
    (hinner : Shortens inner ((value, .number y) :: after)) :
    Grants
      (do
        match ← nextOf value with
        | none => fail .unclosedGroup
        | some next =>
          if next = closing then
            edit (.remove opening)
            edit (.remove closing)
            return value
          else fail (.unexpectedToken (← cellAt next).text))
      w (Reaches before ((opening, .opening closing) :: inner)) := by
  have hy := hw.isPlain (List.append_cons _ _ _)
  refine hw.nextOf (List.append_cons _ _ _) fun w hw ↦ ?_
  rcases after with _ | ⟨⟨next, c⟩, after⟩
  · exact grants_fail _
  rw [firstOf_cons]
  dsimp only
  split
  · next hnext =>
    subst hnext
    have hpartner : c = .closing opening :=
      hw.eq_closing (List.mem_append_right _ List.mem_cons_self) (by simp)
    subst hpartner
    have hnot := hw.represents.not_mem_handlesOf rfl
    refine hw.remove rfl (.inr (.inl ⟨_, rfl⟩)) fun w hw ↦ ?_
    refine hw.remove (List.append_cons _ _ _) (.inr (.inr ⟨_, rfl, ?_⟩)) fun w hw ↦ ?_
    · simp_all
    rw [← List.append_cons] at hw
    exact grants_pure ⟨y, after, hw, .group hy hinner⟩
  · have hnext := (List.append_cons before (opening, .opening closing) _).trans
      (List.append_cons _ (value, .number y) ((next, c) :: after))
    refine hw.cellAt hnext fun w hw ↦ ?_
    exact grants_fail _

private theorem reaches_groupBody (hrecur : KeepsBehind recur)
    (hw : w.HasEntries (before ++ (opening, .opening closing) :: after)) :
    Grants (groupBody recur opening) w (Reaches before ((opening, .opening closing) :: after)) := by
  rw [groupBody]
  refine hw.cellAt rfl fun w hw ↦ ?_
  refine hw.nextOf rfl fun w hw ↦ ?_
  rcases after with _ | ⟨⟨first, c⟩, after⟩
  · exact grants_fail _
  rw [firstOf_cons]
  dsimp only
  split
  · exact grants_fail _
  rw [List.append_cons] at hw
  refine (hrecur.operand hw).bind ?_
  rintro value w ⟨x, after₁, hw, hoperand⟩
  have hx := hw.isPlain rfl
  refine (hrecur.expression hw).bind ?_
  rintro _ w ⟨rfl, y, after₂, hw, hexpression, -⟩
  have hy := hw.isPlain rfl
  rw [← List.append_cons] at hw
  exact reaches_closeGroup hw (hoperand.trans (.renew hx hy hexpression))

/-- The number of an argument takes the place of the function's name. -/
private theorem reaches_applicationBody (hrecur : KeepsBehind recur) {name : String}
    (hw : w.HasEntries (before ++ (h, .function name) :: after)) :
    Grants (applicationBody recur h name) w (Reaches before ((h, .function name) :: after)) := by
  rw [applicationBody]
  refine hw.nextOf rfl fun w hw ↦ ?_
  rcases after with _ | ⟨⟨next, c⟩, after⟩
  · exact grants_fail _
  rw [List.append_cons] at hw
  refine hw.cellAt rfl fun w hw ↦ ?_
  cases c with
  | opening closing =>
    refine (hrecur.group hw).bind ?_
    rintro argument w ⟨x, after₁, hw, hgroup⟩
    refine hw.number rfl fun w hw ↦ ?_
    refine grants_compute_bind fun y hy ↦ ?_
    have hx := hw.isPlain rfl
    refine hw.report _ fun w hw ↦ ?_
    refine hw.set (List.append_cons _ _ _).symm rfl hy fun w hw ↦ ?_
    refine hw.remove (List.append_cons _ _ _) (.inl hx) fun w hw ↦ ?_
    rw [← List.append_cons] at hw
    exact grants_pure ⟨y, after₁, hw, .renew rfl hy (hgroup.trans (.take hx after₁))⟩
  | _ => exact grants_fail _

private theorem reaches_operandBody (hrecur : KeepsBehind recur) {start : Handle}
    (hw : w.HasEntries (before ++ (start, cell) :: after)) :
    Grants (operandBody recur start) w (Reaches before ((start, cell) :: after)) := by
  rw [operandBody]
  refine hw.cellAt rfl fun w hw ↦ ?_
  split
  · exact grants_pure ⟨_, after, hw, .refl _⟩
  · exact hrecur.group hw
  · exact reaches_applicationBody hrecur hw
  · exact reaches_negate hw
  · exact grants_missingOperand start w

/-! ## Operators -/

theorem folds_expressionBody (hrecur : KeepsBehind recur) {left : Handle} {x : Float}
    {least : Nat} (hw : w.HasEntries (before ++ (left, .number x) :: after)) :
    Grants (expressionBody recur left least) w fun h w' ↦
      h = left ∧ Folds before left after least w' := by
  rw [expressionBody]
  refine hw.operatorAfter rfl fun w hw ↦ ?_
  cases hoperator : operatorIn after with
  | none =>
    refine grants_pure ⟨rfl, x, after, hw, .refl _, ?_⟩
    rw [hoperator]
    rintro _ _ ⟨⟩
  | some found =>
    obtain ⟨operator, p⟩ := found
    dsimp only
    by_cases hless : p < least
    · rw [if_pos hless]
      refine grants_pure ⟨rfl, x, after, hw, .refl _, ?_⟩
      rw [hoperator]
      rintro _ _ ⟨⟩
      exact hless
    rw [if_neg hless]
    obtain ⟨symbol, after₁, rfl, -⟩ := exists_of_operatorIn_eq hoperator
    rw [List.append_cons] at hw
    refine (leaves_collapseMinusRun hw).bind ?_
    rintro _ w ⟨symbol, after₂, hw, hminus⟩
    refine hw.nextOf rfl fun w hw ↦ ?_
    rcases after₂ with _ | ⟨⟨start, c⟩, after₂⟩
    · exact grants_fail _
    rw [List.append_cons] at hw
    refine (hrecur.operand hw).bind ?_
    rintro right w ⟨y, after₃, hw, hoperand⟩
    have hy := hw.isPlain rfl
    refine (hrecur.rightOperand hw).bind ?_
    rintro _ w ⟨rfl, y, after₄, hw, hright⟩
    rw [← List.append_cons, ← List.append_cons] at hw
    refine (hasEntries_combine hw).bind ?_
    rintro _ w ⟨rfl, z, hw⟩
    refine (hrecur.expression hw).mono ?_
    rintro _ w ⟨rfl, z, after', hw, hlater, hend⟩
    refine ⟨rfl, z, after', hw, ?_, hend⟩
    -- The operator, the minus signs behind it, its right operand, and what was folded into that.
    exact ((((Shortens.take rfl after₁).trans hminus).trans hoperand).trans
      ((Shortens.take hy after₃).trans hright)).trans hlater

private theorem leaves_rightOperandBody (hrecur : KeepsBehind recur) {right : Handle} {y : Float}
    {priority : Nat} (hw : w.HasEntries (before ++ (right, .number y) :: after)) :
    Grants (rightOperandBody recur right priority) w fun h w' ↦
      h = right ∧ ∃ y, LeavesBehind before right (.number y) after w' := by
  rw [rightOperandBody]
  refine hw.operatorAfter rfl fun w hw ↦ ?_
  split
  · exact grants_pure ⟨rfl, y, after, hw, .refl _⟩
  split
  · refine (hrecur.expression hw).bind ?_
    rintro _ w ⟨rfl, y, after₁, hw, hexpression, -⟩
    refine (hrecur.rightOperand hw).mono ?_
    rintro _ w ⟨rfl, y, after', hw, hlater⟩
    exact ⟨rfl, y, after', hw, hexpression.trans hlater⟩
  · exact grants_pure ⟨rfl, y, after, hw, .refl _⟩

end Bodies

/-- **Every task keeps to what is behind its place**, whatever brackets stand there. -/
theorem keepsBehind_perform (depth : Nat) : KeepsBehind (perform depth) := by
  induction depth with
  | zero => exact ⟨fun _ ↦ grants_throw _, fun _ ↦ grants_throw _, fun _ ↦ grants_throw _,
      fun _ ↦ grants_throw _⟩
  | succ depth ih =>
    constructor
    · exact fun hw ↦ hw.note _ fun w hw ↦ reaches_groupBody ih hw
    · exact fun hw ↦ hw.note _ fun w hw ↦ reaches_operandBody ih hw
    · exact fun hw ↦ hw.note _ fun w hw ↦ folds_expressionBody ih hw
    · exact fun hw ↦ hw.note _ fun w hw ↦ leaves_rightOperandBody ih hw

end Reduction

end Calculator
