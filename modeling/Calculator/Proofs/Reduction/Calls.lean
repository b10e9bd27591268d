import Calculator.Proofs.Reduction.Descent

/-!
# The record of a run

All that a reduction can do to its workspace is to take steps: each is entered into the history, and
the sequence is what the edits among them make of it. This holds in every workspace, whether or not
the handles in it were given out, so a run is known from its steps.

## Calls

Where a history says that a task began, the task was run from the workspace of that moment. What a
run does depends on its workspace alone, so this one run can be had again, and it takes just the
steps that come next in the history. A call is therefore a stretch of the history of its caller,
however both of them end.

## Bounds

The run of a call has a bound of its own, which the history does not tell. It was enough, unless the
caller's was not either, because nothing stops an error on its way out.
-/

namespace Calculator

/-- Whether an event tells of a change to the expression that is being evaluated. -/
def Log.Event.isChange : Event → Bool
  | unaryMinusRun _ | binaryMinusRun | application _ _ _ | combination _ _ _ _ => true
  | token _ | lexError _ | reducing _ | result _ | failed _ _ | noHistory _ => false

namespace Reduction

open Sequence

variable {α β : Type} {w : Workspace} {steps earlier later : List Step} {step : Step} {task : Task}
  {result : Except Fault α}

/-! ## Workspaces after steps -/

/-- What a step does to any sequence; an edit at a handle that was never given out does nothing. -/
def Step.act (s : Sequence) : Step → Sequence
  | .edit e => if (e.fault? s).isSome then s else e.apply s
  | .start _ | .look _ | .report _ => s

namespace Workspace

/-- The workspace after steps, the newest first. -/
def after (w : Workspace) (steps : List Step) : Workspace :=
  steps.foldr (fun step w ↦ ⟨step.act w.sequence, step :: w.history⟩) w

@[simp] theorem after_nil (w : Workspace) : w.after [] = w := rfl

@[simp] theorem after_cons (w : Workspace) (step : Step) (steps : List Step) :
    w.after (step :: steps)
      = ⟨step.act (w.after steps).sequence, step :: (w.after steps).history⟩ :=
  rfl

theorem after_append (w : Workspace) (later earlier : List Step) :
    w.after (later ++ earlier) = (w.after earlier).after later := List.foldr_append

theorem history_after (w : Workspace) (steps : List Step) :
    (w.after steps).history = steps ++ w.history := by
  induction steps with
  | nil => rfl
  | cons step steps ih => rw [after_cons, ih, List.cons_append]

/-! ## Records -/

/-- A task began in a workspace, and `later` is what was done since, the newest step first. Some run
of the task takes the first of these steps; it has bound enough if the caller, which ends with
`result`, has. -/
def IsCall (w : Workspace) (result : Except Fault α) (task : Task) (later : List Step) : Prop :=
  ∃ depth answer called latest, later = latest ++ called ∧
    (perform depth task).run.run w = (answer, w.after (called ++ [.start task])) ∧
    (answer = .error .exhausted → result = .error .exhausted)

/-- What a run that ends with `result` may do: every task that begins is a call, and every event
tells of a change to the expression. -/
structure IsRecord (w : Workspace) (result : Except Fault α) (steps : List Step) : Prop where
  isCall : ∀ later task earlier, steps = later ++ .start task :: earlier →
    (w.after earlier).IsCall result task later
  isChange : ∀ event, .report event ∈ steps → event.isChange

theorem IsCall.prepend (h : w.IsCall result task later) (latest : List Step) :
    w.IsCall result task (latest ++ later) := by
  obtain ⟨depth, answer, called, latest', rfl, hrun, hanswer⟩ := h
  exact ⟨depth, answer, called, latest ++ latest', (List.append_assoc _ _ _).symm, hrun, hanswer⟩

theorem IsCall.mono {result' : Except Fault β} (h : w.IsCall result task later)
    (hresult : result = .error .exhausted → result' = .error .exhausted) :
    w.IsCall result' task later := by
  obtain ⟨depth, answer, called, latest, hlater, hrun, hanswer⟩ := h
  exact ⟨depth, answer, called, latest, hlater, hrun, hresult ∘ hanswer⟩

namespace IsRecord

theorem nil (w : Workspace) (result : Except Fault α) : w.IsRecord result [] where
  isCall _ _ _ h := absurd h (by simp)
  isChange _ h := absurd h (by simp)

private theorem singleton (w : Workspace) (result : Except Fault α)
    (hstart : ∀ task, step ≠ .start task)
    (hchange : ∀ event, step = .report event → event.isChange) : w.IsRecord result [step] where
  isCall later task _ h := by
    rcases List.cons_eq_append_iff.mp h with ⟨-, h⟩ | ⟨_, -, h⟩
    · exact absurd (List.cons.inj h).1.symm (hstart task)
    · exact absurd h (by simp)
  isChange event h := hchange event (List.mem_singleton.mp h).symm

/-- One run after another: a call of the first was not cut short, for then the second would not have
begun. -/
theorem append {b : β} (hearlier : w.IsRecord (.ok b : Except Fault β) earlier)
    (hlater : (w.after earlier).IsRecord result later) : w.IsRecord result (later ++ earlier) where
  isCall latest task first h := by
    rcases split_append h with ⟨mid, rfl, rfl⟩ | ⟨mid, rfl, rfl⟩
    · rw [after_append]
      exact hlater.isCall latest task mid rfl
    · exact ((hearlier.isCall mid task first rfl).mono (by rintro ⟨⟩)).prepend later
  isChange event h := (List.mem_append.mp h).elim (hlater.isChange event) (hearlier.isChange event)

theorem error {fault : Fault} (h : w.IsRecord (.error fault : Except Fault α) steps) :
    w.IsRecord (.error fault : Except Fault β) steps where
  isCall later task earlier hsteps := by
    refine (h.isCall later task earlier hsteps).mono fun hfault ↦ ?_
    rw [Except.error.inj hfault]
  isChange := h.isChange

end IsRecord

end Workspace

/-- A reduction takes steps wherever it starts, and the tasks it begins are calls. -/
def Records (m : Reduction α) : Prop :=
  ∀ w, Ensures m w fun result w' ↦ ∃ steps, w' = w.after steps ∧ w.IsRecord result steps

/-! ## Steps -/

private theorem records_pure (a : α) : Records (pure a) := fun w ↦ ⟨[], rfl, .nil w _⟩

private theorem records_throw (fault : Fault) : Records (throw fault : Reduction α) :=
  fun w ↦ ⟨[], rfl, .nil w _⟩

theorem records_fail (cause : EvalError) : Records (fail cause : Reduction α) := records_throw _

theorem Records.bind {m : Reduction β} {f : β → Reduction α} (hm : Records m)
    (hf : ∀ b, Records (f b)) : Records (m >>= f) := by
  intro w
  refine ensures_bind ?_
  have hrun := hm w
  unfold Ensures at hrun ⊢
  generalize m.run.run w = r at hrun ⊢
  obtain ⟨_ | b, w'⟩ := r
  · obtain ⟨steps, hsteps, hrecord⟩ := hrun
    exact ⟨steps, hsteps, hrecord.error⟩
  · obtain ⟨earlier, rfl, hearlier⟩ := hrun
    obtain ⟨later, hlater, hrecord⟩ := hf b (w.after earlier)
    exact ⟨later ++ earlier, hlater.trans (w.after_append later earlier).symm,
      hearlier.append hrecord⟩

theorem records_get_bind {f : Workspace → Reduction α} (hf : ∀ w, Records (f w)) :
    Records (get >>= f) := fun w ↦ hf w w

private theorem records_report {event : Log.Event} (hchange : event.isChange) :
    Records (report event) := by
  intro w
  refine ⟨[.report event], rfl, .singleton w _ (by rintro _ ⟨⟩) ?_⟩
  rintro _ ⟨⟩
  exact hchange

private theorem records_look (h : Handle) : Records (look h) := by
  have hnote : Records (note (.look h)) := fun w ↦
    ⟨[.look h], rfl, .singleton w _ (by rintro _ ⟨⟩) (by rintro _ ⟨⟩)⟩
  rw [look]
  refine hnote.bind fun _ ↦ records_get_bind fun w ↦ ?_
  split
  · exact records_pure _
  · exact records_throw _

private theorem records_cellAt (h : Handle) : Records (cellAt h) :=
  (records_look h).bind fun _ ↦ records_pure _

private theorem records_nextOf (h : Handle) : Records (nextOf h) :=
  (records_look h).bind fun _ ↦ records_pure _

private theorem records_edit (e : Edit) : Records (edit e) := by
  intro w
  rw [edit, Ensures, run_note, run_modifyGet]
  have hrecord (result : Except Fault Unit) : w.IsRecord result [.edit e] :=
    .singleton w _ (by rintro _ ⟨⟩) (by rintro _ ⟨⟩)
  cases hfault : e.fault? w.sequence with
  | some cause => exact ⟨[.edit e], by simp [Step.act, hfault]; rfl, hrecord _⟩
  | none => exact ⟨[.edit e], by simp [Step.act, hfault]; rfl, hrecord _⟩

/-! ## Parts of a task -/

theorem records_number (h : Handle) : Records (number h) := by
  rw [number]
  refine (records_cellAt h).bind fun cell ↦ ?_
  split
  · exact records_pure _
  · exact records_fail _

private theorem records_compute (what : Computation) : Records (compute what) := by
  rw [compute]
  split
  · exact records_pure _
  · exact records_fail _

private theorem records_missingOperand (h : Handle) : Records (missingOperand h : Reduction α) := by
  rw [missingOperand]
  refine (records_nextOf h).bind fun next ↦ ?_
  split
  · exact (records_cellAt h).bind fun _ ↦ records_fail _
  · exact records_fail _

private theorem records_operatorAfter (h : Handle) : Records (operatorAfter h) := by
  rw [operatorAfter]
  refine (records_nextOf h).bind fun next ↦ ?_
  split
  · exact records_pure _
  refine (records_cellAt _).bind fun cell ↦ ?_
  split
  · exact records_pure _
  · exact records_pure _

private theorem records_dropMinusSigns (h : Handle) (limit : Nat) (odd : Bool) :
    Records (dropMinusSigns h limit odd) := by
  induction limit generalizing odd with
  | zero => exact records_throw _
  | succ limit ih =>
    rw [dropMinusSigns]
    refine (records_nextOf h).bind fun next ↦ ?_
    split
    · exact records_pure _
    refine (records_cellAt _).bind fun cell ↦ ?_
    split
    · exact (records_edit _).bind fun _ ↦ ih _
    · exact records_pure _

private theorem records_dropMinusRun (h : Handle) : Records (dropMinusRun h) := by
  rw [dropMinusRun]
  exact records_get_bind fun w ↦ records_dropMinusSigns h _ _

private theorem records_negate (h : Handle) : Records (negate h) := by
  rw [negate]
  refine (records_dropMinusRun h).bind fun odd ↦ (records_nextOf h).bind fun next ↦ ?_
  split
  · exact records_fail _
  exact (records_report rfl).bind fun _ ↦ (records_edit _).bind fun _ ↦
    (records_edit _).bind fun _ ↦ records_pure _

private theorem records_collapseMinusRun (h : Handle) : Records (collapseMinusRun h) := by
  rw [collapseMinusRun]
  refine (records_cellAt h).bind fun cell ↦ ?_
  split
  · refine (records_dropMinusRun h).bind fun odd ↦ ?_
    split
    · exact records_pure _
    · exact (records_report rfl).bind fun _ ↦ records_edit _
  · exact records_pure _

private theorem records_combine (left operator right : Handle) :
    Records (combine left operator right) := by
  rw [combine]
  refine (records_number left).bind fun x ↦ (records_number right).bind fun y ↦
    (records_cellAt operator).bind fun cell ↦ ?_
  split
  · exact (records_compute _).bind fun value ↦ (records_report rfl).bind fun _ ↦
      (records_edit _).bind fun _ ↦ (records_edit _).bind fun _ ↦
      (records_edit _).bind fun _ ↦ records_pure _
  · exact records_fail _

/-! ## The tasks -/

section Bodies

variable {recur : Task → Reduction Handle} (hrecur : ∀ task, Records (recur task))

include hrecur

private theorem records_groupBody (opening : Handle) : Records (groupBody recur opening) := by
  rw [groupBody]
  refine (records_cellAt opening).bind fun cell ↦ ?_
  split
  · refine (records_nextOf opening).bind fun first ↦ ?_
    split
    · exact records_fail _
    split
    · exact records_fail _
    refine (hrecur _).bind fun value ↦ (hrecur _).bind fun value ↦
      (records_nextOf value).bind fun next ↦ ?_
    split
    · exact records_fail _
    split
    · exact (records_edit _).bind fun _ ↦ (records_edit _).bind fun _ ↦ records_pure _
    · exact (records_cellAt _).bind fun _ ↦ records_fail _
  · exact records_fail _

private theorem records_applicationBody (h : Handle) (name : String) :
    Records (applicationBody recur h name) := by
  rw [applicationBody]
  refine (records_nextOf h).bind fun next ↦ ?_
  split
  · exact records_fail _
  refine (records_cellAt _).bind fun cell ↦ ?_
  split
  · exact (hrecur _).bind fun argument ↦ (records_number argument).bind fun x ↦
      (records_compute _).bind fun value ↦ (records_report rfl).bind fun _ ↦
      (records_edit _).bind fun _ ↦ (records_edit _).bind fun _ ↦ records_pure _
  · exact records_fail _

private theorem records_operandBody (start : Handle) : Records (operandBody recur start) := by
  rw [operandBody]
  refine (records_cellAt start).bind fun cell ↦ ?_
  split
  · exact records_pure _
  · exact hrecur _
  · exact records_applicationBody hrecur start _
  · exact records_negate start
  · exact records_missingOperand start

private theorem records_expressionBody (left : Handle) (least : Nat) :
    Records (expressionBody recur left least) := by
  rw [expressionBody]
  refine (records_operatorAfter left).bind fun found ↦ ?_
  split
  · exact records_pure _
  split
  · exact records_pure _
  refine (records_collapseMinusRun _).bind fun _ ↦ (records_nextOf _).bind fun next ↦ ?_
  split
  · exact records_fail _
  · exact (hrecur _).bind fun right ↦ (hrecur _).bind fun right ↦
      (records_combine left _ right).bind fun left ↦ hrecur _

private theorem records_rightOperandBody (right : Handle) (priority : Nat) :
    Records (rightOperandBody recur right priority) := by
  rw [rightOperandBody]
  refine (records_operatorAfter right).bind fun found ↦ ?_
  split
  · exact records_pure _
  split
  · exact (hrecur _).bind fun right ↦ hrecur _
  · exact records_pure _

private theorem records_bodyOf (task : Task) : Records (bodyOf recur task) := by
  cases task with
  | group opening => exact records_groupBody hrecur opening
  | operand start => exact records_operandBody hrecur start
  | expression left least => exact records_expressionBody hrecur left least
  | rightOperand right priority => exact records_rightOperandBody hrecur right priority

end Bodies

/-- **Every call takes its steps in a row.** The task itself is the oldest call of its record. -/
theorem records_perform (depth : Nat) (task : Task) : Records (perform depth task) := by
  induction depth generalizing task with
  | zero => exact records_throw _
  | succ depth ih =>
    intro w
    obtain ⟨later, hlater, hrecord⟩ := records_bodyOf ih task (w.after [.start task])
    have hrun : (perform (depth + 1) task).run.run w
        = (bodyOf (perform depth) task).run.run (w.after [.start task]) := by
      rw [perform_succ, run_note]
      rfl
    have hafter := hlater.trans (w.after_append later [.start task]).symm
    rw [Ensures, hrun]
    refine ⟨later ++ [.start task], hafter, fun latest task' earlier hsplit ↦ ?_, fun event h ↦ ?_⟩
    · rcases split_cons hsplit with ⟨mid, rfl, rfl⟩ | ⟨rfl, ⟨⟩, rfl⟩ | ⟨mid, h, -⟩
      · rw [Workspace.after_append]
        exact hrecord.isCall latest task' mid rfl
      · exact ⟨depth + 1, _, latest, [], rfl, hrun.trans (Prod.ext rfl hafter), id⟩
      · exact absurd h (by simp)
    · refine hrecord.isChange event ((List.mem_append.mp h).resolve_right ?_)
      simp

/-! ## Larger bounds -/

/-- A run that was not cut short is the same with a larger bound. -/
theorem approximates_perform {bound depth : Nat} (h : bound ≤ depth) (task : Task) :
    Approximates (perform bound task) (perform depth task) := by
  induction bound generalizing depth task with
  | zero => exact fun w ↦ .inl rfl
  | succ bound ih =>
    obtain _ | depth := depth
    · exact absurd h (Nat.not_succ_le_zero bound)
    rw [perform_succ, perform_succ]
    exact .bind_right _ fun _ ↦ approximates_bodyOf (ih (Nat.le_of_succ_le_succ h)) task

theorem run_perform_of_le {bound depth : Nat} {answer : Except Fault Handle} {w' : Workspace}
    (hrun : (perform bound task).run.run w = (answer, w')) (hanswer : answer ≠ .error .exhausted)
    (h : bound ≤ depth) : (perform depth task).run.run w = (answer, w') := by
  rcases approximates_perform h task w with hcut | hsame
  · rw [hrun] at hcut
    exact absurd hcut hanswer
  · exact hsame.symm.trans hrun

end Reduction

end Calculator
