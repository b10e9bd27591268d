import Calculator.Proofs.Evaluation.Moments
import Calculator.Proofs.Reduction.Calls

/-!
# The record of an evaluation

The history of an evaluation read as the record of a run. It reports first that the reduction
begins, then nothing but changes, and at the end the value if there is one. Each moment of it is a
workspace, and a task that begins there is run from this workspace to that of a later moment.
-/

namespace Calculator

open Reduction Sequence

variable {s : Sequence} {n k : Nat} {items : List Climbing.Item} {body : List Entry} {task : Task}

/-! ## Beginning and end -/

/-- The reduction of a prepared sequence between the reports of its beginning and of its end. -/
def reduceRoot (s : Sequence) : Reduction Float :=
  match s.head with
  | none => fail .missingOuterGroup
  | some root => do
    let value ← perform (depthBound s) (.group root)
    let left := (← get).sequence
    if left.length ≠ 1 then fail (.leftoverCells left.text) else number value

theorem reduce_eq (s : Sequence) : reduce s = do
    report (.reducing s)
    let x ← reduceRoot s
    report (.result x)
    return x := by
  rw [reduce, reduceRoot]
  cases s.head with
  | none => rfl
  | some root =>
    simp only [bind_assoc]
    congr! with _ value w
    split <;> rfl

private theorem records_reduceRoot (s : Sequence) : Records (reduceRoot s) := by
  rw [reduceRoot]
  split
  · exact records_fail _
  refine (records_perform _ _).bind fun value ↦ records_get_bind fun w ↦ ?_
  dsimp only
  split
  · exact records_fail _
  · exact records_number value

/-- The report of the end: a value is reported, an error is not. -/
def Reduction.Step.ofResult : Except Fault Float → List Step
  | .ok x => [.report (.result x)]
  | .error _ => []

/-- **A reduction tells first that it begins, then of changes, and in the end its value.** -/
theorem exists_record (s : Sequence) : ∃ steps,
    Workspace.IsRecord ⟨s, [.report (.reducing s)]⟩ (Evaluation.ofSequence s).result steps ∧
      (Evaluation.ofSequence s).history.reverse
        = Step.ofResult (Evaluation.ofSequence s).result ++ (steps ++ [.report (.reducing s)]) := by
  have hresult : (Evaluation.ofSequence s).result = ((reduce s).run.run ⟨s, []⟩).1 := rfl
  have hhistory : (Evaluation.ofSequence s).history.reverse
      = ((reduce s).run.run ⟨s, []⟩).2.history := List.reverse_reverse _
  have hrecord := records_reduceRoot s ⟨s, [.report (.reducing s)]⟩
  rw [hresult, hhistory, reduce_eq, report, run_note, run_bind]
  unfold Ensures at hrecord
  generalize (reduceRoot s).run.run _ = r at hrecord ⊢
  obtain ⟨fault | x, w⟩ := r
  · obtain ⟨steps, rfl, hsteps⟩ := hrecord
    exact ⟨steps, hsteps, Workspace.history_after _ steps⟩
  · obtain ⟨steps, rfl, hsteps⟩ := hrecord
    exact ⟨steps, hsteps, congrArg _ (Workspace.history_after _ steps)⟩

/-- A task begins neither with the first step nor with the last, so it is a call of the record. -/
theorem isCall_of_history {later earlier : List Step}
    (h : (Evaluation.ofSequence s).history.reverse = later ++ .start task :: earlier) :
    (Workspace.after ⟨s, []⟩ earlier).IsCall (Evaluation.ofSequence s).result task later := by
  obtain ⟨steps, hrecord, hhistory⟩ := exists_record s
  rw [hhistory] at h
  rcases split_append h with ⟨mid, hlast, -⟩ | ⟨mid, hbefore, rfl⟩
  · have hmem : Step.start task ∈ Step.ofResult (Evaluation.ofSequence s).result := by simp [hlast]
    revert hmem
    cases (Evaluation.ofSequence s).result <;> simp [Step.ofResult]
  rcases split_cons hbefore with ⟨mid', rfl, rfl⟩ | ⟨-, hfirst, -⟩ | ⟨mid', hfirst, -⟩
  · rw [Workspace.after_append]
    exact (hrecord.isCall mid task mid' rfl).prepend _
  · cases hfirst
  · exact absurd hfirst (by simp)

/-! ## Moments -/

theorem Reduction.Chronicle.after_eq {origin : Sequence} {history : List Step} {es : List Entry}
    (h : Chronicle origin history s es) :
    Workspace.after ⟨origin, []⟩ history = ⟨s, history⟩ := by
  induction h with
  | origin _ _ => rfl
  | @step _ s es _ step hearlier hmove ih =>
    rw [Workspace.after_cons, ih]
    cases step with
    | edit e =>
      have hfault : e.fault? s = none :=
        fault?_eq_none fun h hh ↦ hearlier.represents.lt_size (hmove.mem_of_target? hh)
      simp [Step.act, Step.effect, hfault]
    | _ => rfl

namespace Evaluation

/-- The workspace after the first `k` steps of a reduction. -/
def workspaceAt (s : Sequence) (k : Nat) : Workspace :=
  ⟨sequenceAt s k, ((ofSequence s).history.take k).reverse⟩

theorem workspaceAt_eq (hs : s.IsPrepared n items body) (k : Nat) :
    workspaceAt s k = Workspace.after ⟨s, []⟩ ((ofSequence s).history.take k).reverse := by
  obtain ⟨es, hchronicle⟩ := exists_chronicle_at hs k
  exact hchronicle.after_eq.symm

/-- What was done first, the newest step first, leads to the moment behind it. -/
theorem workspaceAt_length (hs : s.IsPrepared n items body) {steps : List Step}
    (hsteps : steps <:+ (ofSequence s).history.reverse) :
    workspaceAt s steps.length = Workspace.after ⟨s, []⟩ steps := by
  have hfirst := List.prefix_iff_eq_take.mp (List.reverse_prefix.mpr hsteps)
  rw [List.reverse_reverse, List.length_reverse] at hfirst
  rw [workspaceAt_eq hs, ← hfirst, List.reverse_reverse]

private theorem result_ne_exhausted (hs : s.IsPrepared n items body) :
    (ofSequence s).result ≠ .error .exhausted := by
  rw [(ofSequence_spec hs).1]
  cases (Climbing.readGroup (items ++ [.closing])).map Prod.fst <;> rintro ⟨⟩

/-- **A task is run from the moment it begins to a later one**, with any bound that is large enough
not to cut it short. -/
theorem exists_call (hs : s.IsPrepared n items body)
    (hstart : (ofSequence s).history[k]? = some (.start task)) :
    ∃ bound answer later, k < later ∧ answer ≠ .error .exhausted ∧
      ∀ depth ≥ bound,
        (perform depth task).run.run (workspaceAt s k) = (answer, workspaceAt s later) := by
  have hhistory := reverse_eq_of_getElem? hstart
  obtain ⟨bound, answer, called, latest, hlater, hrun, hanswer⟩ := isCall_of_history hhistory
  rw [← workspaceAt_eq hs] at hrun
  -- The steps of the call and all before them are what was done first.
  have hsuffix : called ++ .start task :: ((ofSequence s).history.take k).reverse
      <:+ (ofSequence s).history.reverse := by
    rw [hhistory, hlater, List.append_assoc]
    exact List.suffix_append _ _
  have hafter := workspaceAt_length hs hsuffix
  rw [List.append_cons, Workspace.after_append, ← workspaceAt_eq hs] at hafter
  have hends : answer ≠ .error .exhausted := fun h ↦ result_ne_exhausted hs (hanswer h)
  refine ⟨bound, answer, _, ?_, hends, fun depth hdepth ↦
    run_perform_of_le (hrun.trans (congrArg _ hafter.symm)) hends hdepth⟩
  obtain ⟨hk, -⟩ := List.getElem?_eq_some_iff.mp hstart
  simp only [List.length_append, List.length_reverse, List.length_take_of_le (Nat.le_of_lt hk),
    List.length_singleton]
  omega

end Evaluation

end Calculator
