import Calculator.Proofs.Evaluation.Record

/-!
# A group is reduced in its place

When a group has been reduced, a number stands where the group stood, and nothing else has moved.
What is before the opening parenthesis and what is behind the closing one keeps its handles, its
cells and its order, whatever the tasks inside have retagged, put in and taken out.

## Each call

A call begins at a moment of the evaluation and ends at a later one. The frame holds between these
two, and so for every group of an expression, also where the evaluation fails in the end.
-/

namespace Calculator

open Reduction Sequence

variable {tokens : List Token} {s s' : Sequence} {w : Workspace} {k : Nat}
  {es before inner after : List Entry} {opening closing value : Handle}

/-! ## Groups of a sequence -/

/-- The entries of a sequence with a group that opens at one handle and closes at another. -/
def Sequence.withGroup (before inner after : List Entry) (opening closing : Handle) : List Entry :=
  before ++ (opening, .opening closing) :: (inner ++ (closing, .closing opening) :: after)

/-- From `s` to `s'` a group was replaced by a finite number at the handle `value`, and its
parentheses and all between them are out; the entries before it and behind it are the same. -/
structure Sequence.ReplacesGroup (s s' : Sequence) (before inner after : List Entry)
    (opening closing value : Handle) : Prop where
  group : s.Represents (withGroup before inner after opening closing)
  number : ∃ x : Float, x.isFinite ∧ s'.Represents (before ++ (value, .number x) :: after)
  /-- The length drops by the cells of the group except one. -/
  length_add : s'.length + UInt64.ofNat (inner.length + 1) = s.length

private theorem replacesGroup_of_represents {x : Float}
    (hs : s.Represents (withGroup before inner after opening closing)) (hx : x.isFinite)
    (hs' : s'.Represents (before ++ (value, .number x) :: after)) :
    s.ReplacesGroup s' before inner after opening closing value where
  group := hs
  number := ⟨x, hx, hs'⟩
  length_add := by
    rw [hs'.length, hs.length, ← UInt64.ofNat_add]
    congr 1
    simp only [withGroup, List.length_append, List.length_cons]
    omega

/-! ## Calls -/

/-- Wherever a group is reduced with success, only the group is replaced. -/
private theorem replacesGroup_of_ready (hw : w.Holds s es) (hready : Ready (.group opening) es) :
    ∃ before inner closing after,
      w.sequence.Represents (withGroup before inner after opening closing) ∧
      ∀ depth value w', (perform depth (.group opening)).run.run w = (.ok value, w') →
        w.sequence.ReplacesGroup w'.sequence before inner after opening closing value := by
  obtain ⟨before, inner, closing, after, hinner, rfl⟩ := hready
  refine ⟨before, inner, closing, after, hw.represents, fun depth value w' hrun ↦ ?_⟩
  have hsimulates := (follows_perform depth).group hinner hw rfl
  rw [Simulates, Ensures, hrun] at hsimulates
  dsimp only at hsimulates
  generalize Climbing.group depth _ = answer at hsimulates
  cases hsimulates with
  | value hw' hcollapsed =>
    obtain ⟨rfl, -⟩ := hcollapsed
    exact replacesGroup_of_represents hw.represents (isFinite_of_holds hw' rfl) hw'.represents

/-- **The reduction of a group touches only its own cells.** A call that begins at the moment `k`
to reduce the group at `opening` finds an opening parenthesis there with its partner behind it. It
ends at the moment `later`, and if it answers with a handle, then the number at this handle stands
in the place of the whole group, and every other cell is as it was. -/
theorem group_call_replaces (h : prepare tokens = .ok s)
    (hstart : (Evaluation.ofSequence s).history[k]? = some (.start (.group opening))) :
    ∃ before inner closing after bound answer later,
      k < later ∧ answer ≠ .error .exhausted ∧
      (∀ depth ≥ bound, (perform depth (.group opening)).run.run (Evaluation.workspaceAt s k)
        = (answer, Evaluation.workspaceAt s later)) ∧
      (Evaluation.sequenceAt s k).Represents (withGroup before inner after opening closing) ∧
      ∀ value, answer = .ok value →
        (Evaluation.sequenceAt s k).ReplacesGroup (Evaluation.sequenceAt s later)
          before inner after opening closing value := by
  obtain ⟨items, body, -, hs⟩ := exists_isPrepared h
  obtain ⟨es, _, hchronicle, hmove⟩ := exists_move_at hs hstart
  cases hmove with
  | start hready =>
    obtain ⟨before, inner, closing, after, hgroup, hreplaces⟩ :=
      replacesGroup_of_ready (w := Evaluation.workspaceAt s k) hchronicle hready
    obtain ⟨bound, answer, later, hlater, hanswer, hrun⟩ := Evaluation.exists_call hs hstart
    refine ⟨before, inner, closing, after, bound, answer, later, hlater, hanswer, hrun, hgroup,
      fun value hvalue ↦ ?_⟩
    subst hvalue
    exact hreplaces bound value _ (hrun bound (Nat.le_refl bound))

/-- A product with a group that is divided by zero, so that its evaluation fails in the end. -/
def dividedGroup : List Token :=
  [.number "2", .operator '*', .opening, .operator '-', .number "1", .operator '-', .operator '-',
    .number "3", .closing, .operator '/', .number "0"]

/-- The group is reduced with success, to a number at the handle of its first cell. -/
theorem group_call_of_dividedGroup :
    ∃ s, prepare dividedGroup = .ok s ∧
      (Evaluation.ofSequence s).history[13]? = some (.start (.group 2)) ∧
      ((perform 20 (.group 2)).run.run (Evaluation.workspaceAt s 13)).1 = .ok 3 ∧
      ∃ before inner closing after bound answer later,
        13 < later ∧ answer ≠ .error .exhausted ∧
        (∀ depth ≥ bound, (perform depth (.group 2)).run.run (Evaluation.workspaceAt s 13)
          = (answer, Evaluation.workspaceAt s later)) ∧
        (Evaluation.sequenceAt s 13).Represents (withGroup before inner after 2 closing) ∧
        ∀ value, answer = .ok value →
          (Evaluation.sequenceAt s 13).ReplacesGroup (Evaluation.sequenceAt s later)
            before inner after 2 closing value := by
  have hprepare : prepare dividedGroup = .ok ((prepare dividedGroup).toOption.getD empty) := by
    decide +kernel
  have hstart : (Evaluation.ofSequence ((prepare dividedGroup).toOption.getD empty)).history[13]?
      = some (.start (.group 2)) := by
    decide +kernel
  exact ⟨_, hprepare, hstart, by decide +kernel, group_call_replaces hprepare hstart⟩

end Calculator
