import Calculator.Proofs.Reduction.Shortening

/-!
# The rounds of a right operand

A right operand is extended by a loop: while an operator behind it binds tighter than the one on its
left, an expression is reduced there with the priority of that operator as its threshold. Each such
expression takes all operators down to its threshold, so what follows it binds more loosely than
everything that was folded. With three priorities this leaves room for two rounds.

## A guard that is idle

That is said of the loop by a second one, which stops where it would go round a third time or with a
threshold that is not below all it has folded. The two do the same on every workspace whose entries
are sound. To know what was folded, tasks are done once more by a way that tells the priorities of
the operators that they fold; forgetting what is told gives back the tasks as they were.

## Which operators count

An operator inside of a group that is reduced on the way may have any priority, so it is not told
of. All others are, those that a right operand folds on its own account included.
-/

namespace Calculator

namespace Reduction

open Sequence

variable {depth rounds bound p : Nat} {folded : List Nat} {before after : List Entry}
  {w : Workspace} {right : Handle} {y : Float}

/-! ## Telling what is folded -/

/-- What a task consists of, for a way `tell` to do the tasks it calls and to tell the priorities of
the operators that they fold. -/
def tellingBody (tell : Task → Reduction (Handle × List Nat)) : Task → Reduction (Handle × List Nat)
  | .expression left least => do
    match ← operatorAfter left with
    | none => return (left, [])
    | some (operator, priority) =>
      if priority < least then return (left, [])
      else
        collapseMinusRun operator
        match ← nextOf operator with
        | none => fail (.missingOperand none)
        | some start =>
          let (right, _) ← tell (.operand start)
          let (right, inRight) ← tell (.rightOperand right priority)
          let left ← combine left operator right
          let (left, later) ← tell (.expression left least)
          return (left, inRight ++ priority :: later)
  | .rightOperand right priority => do
    match ← operatorAfter right with
    | none => return (right, [])
    | some (_, next) =>
      if priority < next ∨ next = priority ∧ groupsRight priority then
        let (right, first) ← tell (.expression right next)
        let (right, later) ← tell (.rightOperand right priority)
        return (right, first ++ later)
      else return (right, [])
  | task => do return (← bodyOf (fun task ↦ Prod.fst <$> tell task) task, [])

/-- Does a task, and tells the priorities of the operators that it folds outside of groups. -/
def performTelling : (depth : Nat) → Task → Reduction (Handle × List Nat)
  | 0, _ => throw .exhausted
  | depth + 1, task => do
    note (.start task)
    tellingBody (performTelling depth) task

/-- **What is told can be forgotten**: the bodies are those of the tasks. -/
theorem map_fst_tellingBody (tell : Task → Reduction (Handle × List Nat)) (task : Task) :
    Prod.fst <$> tellingBody tell task = bodyOf (fun task ↦ Prod.fst <$> tell task) task := by
  cases task with
  | group opening => simp [tellingBody]
  | operand start => simp [tellingBody]
  | expression left least =>
    rw [tellingBody, bodyOf, expressionBody, map_bind]
    congr! with found
    cases found with
    | none => exact map_pure _ _
    | some found =>
      obtain ⟨operator, priority⟩ := found
      dsimp only
      split
      · exact map_pure _ _
      · simp only [map_bind, bind_map_left]
        congr! with _ next
        cases next with
        | none => rfl
        | some start => simp
  | rightOperand right priority =>
    rw [tellingBody, bodyOf, rightOperandBody, map_bind]
    congr! with found
    cases found with
    | none => exact map_pure _ _
    | some found =>
      obtain ⟨operator, next⟩ := found
      dsimp only
      by_cases htakes : priority < next ∨ next = priority ∧ groupsRight priority
      · rw [if_pos htakes, if_pos htakes]
        simp
      · rw [if_neg htakes, if_neg htakes]
        exact map_pure _ _

private theorem map_fst_performTelling (depth : Nat) (task : Task) :
    Prod.fst <$> performTelling depth task = perform depth task := by
  induction depth generalizing task with
  | zero => rfl
  | succ depth ih =>
    rw [performTelling, map_bind, perform_succ]
    simp only [map_fst_tellingBody, ih]

/-! ## What is told -/

theorem le_of_takes {next : Nat} (htakes : p < next ∨ next = p ∧ groupsRight p) :
    p ≤ next := by
  rcases htakes with h | ⟨h, -⟩ <;> omega

/-- Every operator that an expression folds has its least priority or more, and every operator that
is folded into a right operand has the priority on its left or more. -/
def Task.Tells : Task → List Nat → Prop
  | .expression _ least, folded => ∀ p ∈ folded, least ≤ p
  | .rightOperand _ priority, folded => ∀ p ∈ folded, priority ≤ p
  | .group _, _ | .operand _, _ => True

private theorem tells_tellingBody {tell : Task → Reduction (Handle × List Nat)}
    (htell : ∀ task w, Grants (tell task) w fun answer _ ↦ task.Tells answer.2) (task : Task)
    (w : Workspace) : Grants (tellingBody tell task) w fun answer _ ↦ task.Tells answer.2 := by
  cases task with
  | group opening => exact grants_true _ w
  | operand start => exact grants_true _ w
  | expression left least =>
    refine (grants_true (operatorAfter left) w).bind fun found w _ ↦ ?_
    cases found with
    | none => exact grants_pure (by rintro _ ⟨⟩)
    | some found =>
      obtain ⟨operator, priority⟩ := found
      dsimp only
      by_cases hless : priority < least
      · rw [if_pos hless]
        exact grants_pure (by rintro _ ⟨⟩)
      rw [if_neg hless]
      refine (grants_true (collapseMinusRun operator) w).bind fun _ w _ ↦ ?_
      refine (grants_true (nextOf operator) w).bind fun next w _ ↦ ?_
      cases next with
      | none => exact grants_fail _
      | some start =>
        refine (grants_true (tell (.operand start)) w).bind fun answer w _ ↦ ?_
        refine (htell (.rightOperand answer.1 priority) w).bind fun answer w hright ↦ ?_
        refine (grants_true (combine left operator answer.1) w).bind fun left w _ ↦ ?_
        refine (htell (.expression left least) w).bind fun answer' w hlater ↦ ?_
        refine grants_pure fun p hp ↦ ?_
        have hleast := Nat.not_lt.mp hless
        rcases List.mem_append.mp hp with hp | hp
        · exact Nat.le_trans hleast (hright p hp)
        rcases List.mem_cons.mp hp with rfl | hp
        · exact hleast
        · exact hlater p hp
  | rightOperand right priority =>
    refine (grants_true (operatorAfter right) w).bind fun found w _ ↦ ?_
    cases found with
    | none => exact grants_pure (by rintro _ ⟨⟩)
    | some found =>
      obtain ⟨operator, next⟩ := found
      dsimp only
      by_cases htakes : priority < next ∨ next = priority ∧ groupsRight priority
      · rw [if_pos htakes]
        refine (htell (.expression right next) w).bind fun answer w hfirst ↦ ?_
        refine (htell (.rightOperand answer.1 priority) w).bind fun answer' w hlater ↦ ?_
        refine grants_pure fun p hp ↦ ?_
        rcases List.mem_append.mp hp with hp | hp
        · exact Nat.le_trans (le_of_takes htakes) (hfirst p hp)
        · exact hlater p hp
      · rw [if_neg htakes]
        exact grants_pure (by rintro _ ⟨⟩)

private theorem tells_performTelling (depth : Nat) (task : Task) (w : Workspace) :
    Grants (performTelling depth task) w fun answer _ ↦ task.Tells answer.2 := by
  induction depth generalizing task w with
  | zero => exact grants_throw _
  | succ depth ih =>
    exact (grants_note _ w).bind fun _ w _ ↦ tells_tellingBody ih task w

/-! ## The guarded loop -/

/-- The loop over the operators behind a right operand, with a guard: it may go round `rounds`
times, each time with a threshold below all priorities in `folded`, to which those are added that
the round folds. The answer is `none` where it would go on against the guard. -/
def guardedRounds : (depth rounds : Nat) → (folded : List Nat) → (right : Handle) →
    (priority : Nat) → Reduction (Option Handle)
  | 0, _, _, _, _ => throw .exhausted
  | depth + 1, rounds, folded, right, priority => do
    note (.start (.rightOperand right priority))
    match ← operatorAfter right with
    | none => return some right
    | some (_, next) =>
      if priority < next ∨ next = priority ∧ groupsRight priority then
        if 0 < rounds ∧ ∀ p ∈ folded, next < p then
          let (right, more) ← performTelling depth (.expression right next)
          guardedRounds depth (rounds - 1) (folded ++ more) right priority
        else return none
      else return some right

/-- A threshold in the loop behind an operator is at least `2`. -/
theorem two_le_of_takes {next : Nat} (hp : 1 ≤ p) (htakes : p < next ∨ next = p ∧ groupsRight p) :
    2 ≤ next := by
  rcases htakes with h | ⟨rfl, hright⟩
  · omega
  · have hpower : next = 3 := of_decide_eq_true hright
    omega

/-- Where an expression folded down to the threshold `next`, all that was told of is at least
`next`, and any operator that follows is less. -/
theorem grants_telling_expression (depth next : Nat)
    (hw : w.HasEntries (before ++ (right, .number y) :: after)) :
    Grants (performTelling depth (.expression right next)) w fun answer w' ↦
      answer.1 = right ∧ Folds before right after next w' ∧ ∀ q ∈ answer.2, next ≤ q := by
  intro answer hanswer
  have hfolds : Grants (perform depth (.expression right next)) w _ :=
    (keepsBehind_perform depth).expression hw
  rw [← map_fst_performTelling, Grants, Ensures, run_map, hanswer] at hfolds
  obtain ⟨hright, hfolds⟩ := hfolds answer.1 rfl
  exact ⟨hright, hfolds, tells_performTelling depth _ w answer hanswer⟩

/-- Thresholds below `bound` leave room for `bound - 2` rounds. With as many the guard is idle. -/
theorem guardedRounds_eq (hp : 1 ≤ p) (hw : w.HasEntries (before ++ (right, .number y) :: after))
    (hfolded : ∀ q ∈ folded, bound ≤ q)
    (hnext : ∀ operator q, operatorIn after = some (operator, q) → q < bound)
    (hrounds : bound ≤ rounds + 2) :
    (guardedRounds depth rounds folded right p).run.run w
      = (some <$> perform depth (.rightOperand right p)).run.run w := by
  induction depth generalizing rounds folded bound after y w with
  | zero => rfl
  | succ depth ih =>
    have hstart := hw.same (.start (.rightOperand right p) :: w.history)
    obtain ⟨history, hrun⟩ := run_operatorAfter hstart.represents rfl
    rw [guardedRounds, run_note, hrun, run_map, perform_succ, run_note, bodyOf, rightOperandBody,
      hrun]
    cases hoperator : operatorIn after with
    | none => rfl
    | some found =>
      obtain ⟨operator, next⟩ := found
      have hless := hnext operator next hoperator
      dsimp only
      by_cases htakes : p < next ∨ next = p ∧ groupsRight p
      · have htwo := two_le_of_takes hp htakes
        have hguard : 0 < rounds ∧ ∀ q ∈ folded, next < q :=
          ⟨by omega, fun q hq ↦ Nat.lt_of_lt_of_le hless (hfolded q hq)⟩
        rw [if_pos htakes, if_pos htakes, if_pos hguard, run_bind, run_bind,
          ← map_fst_performTelling depth (.expression right next), run_map]
        have hround := grants_telling_expression depth next (hw.same history)
        unfold Grants Ensures at hround
        generalize (performTelling depth (.expression right next)).run.run _ = r at hround ⊢
        obtain ⟨_ | ⟨_, more⟩, w₁⟩ := r
        · rfl
        obtain ⟨rfl, ⟨z, after₁, hw₁, -, hend⟩, hmore⟩ := hround _ rfl
        -- From here on the threshold of this round is the bound.
        refine (ih hw₁ (fun q hq ↦ ?_) hend (by omega)).trans (run_map _ _ _)
        rcases List.mem_append.mp hq with hq | hq
        · exact Nat.le_of_lt (hguard.2 q hq)
        · exact hmore q hq
      · rw [if_neg htakes, if_neg htakes]
        rfl

theorem priority_bounds {symbol : Char} (h : priority symbol = some p) : 1 ≤ p ∧ p < 4 := by
  obtain ⟨o, -, rfl⟩ := Option.map_eq_some_iff.mp h
  cases o <;> decide

/-- **A right operand takes at most two rounds**, each with a threshold below all priorities that
were folded before. -/
theorem guardedRounds_two (hp : 1 ≤ p) (hw : w.HasEntries (before ++ (right, .number y) :: after)) :
    (guardedRounds depth 2 [] right p).run.run w
      = (some <$> perform depth (.rightOperand right p)).run.run w := by
  have hrounds : 4 ≤ 2 + 2 := Nat.le_refl 4
  refine guardedRounds_eq hp hw (by rintro _ ⟨⟩) (fun operator q hoperator ↦ ?_) hrounds
  obtain ⟨symbol, after', -, hq⟩ := exists_of_operatorIn_eq hoperator
  exact (priority_bounds hq).2

end Reduction

end Calculator
