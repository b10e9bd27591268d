import Calculator.Proofs.Evaluation.Refinement
import Calculator.Proofs.Reduction.Balance

/-!
# What an evaluation costs

The reduction of a prepared sequence keeps every account: on success it spends just what is due to
the items of the expression, and on failure no more. On the way the bound on the depth is found to
be idle, because the weight of the outer group bounds the depth already.
-/

namespace Calculator

open Reduction Sequence Climbing

namespace Reduction.Account

variable {A : Account} {s : Sequence} {n : Nat} {items : List Item} {body : List Entry}
  {w : Workspace} {spent total : Nat}

/-- What a task pays below a bound on its weight it pays below a bound on its depth. -/
theorem Pays.perform {origin : Sequence} {task : Task} {bound depth : Nat}
    {good : Handle → List Entry → Nat → Prop}
    (h : A.Pays origin (performBelow bound task) w total good) (hdepth : bound ≤ depth) :
    EndsAs (perform depth task) (performBelow bound task) w ∧
      A.Pays origin (perform depth task) w total good := by
  have hends : EndsAs (Reduction.perform depth task) (performBelow bound task) w :=
    (approximates_performBelow hdepth task).endsAs h.ne_exhausted
  refine ⟨hends, ?_⟩
  rw [Pays, Ensures, hends.2]
  exact h

/-- The outer group of a prepared sequence. -/
theorem pays_outerGroup (hs : s.IsPrepared n items body) (hw : A.At w s (enclosed n body) spent) :
    EndsAs (perform (depthBound s) (.group n))
        (performBelow (Task.weight w.sequence (.group n) + 1) (.group n)) w ∧
      A.Pays s (perform (depthBound s) (.group n)) w (spent + A.due false (items ++ [.closing]))
        (A.Leaves [] [] (spent + A.due false (items ++ [.closing]))) := by
  have hes : enclosed n body
      = [] ++ (n, .opening (n + 1)) :: (body ++ (n + 1, .closing n) :: []) := rfl
  have hitems : itemsOf (body ++ [(n + 1, .closing n)]) = items ++ [.closing] := by
    rw [itemsOf_append, hs.itemsOf_eq]
    rfl
  have hweight : Task.weight w.sequence (.group n) = 2 * weight (items ++ [.closing]) + 1 := by
    rw [← hitems, Task.weight, hw.represents.weightBehind_eq hes]
  have hlength := hs.length_le
  have hle := weight_le_length (items ++ [.closing])
  rw [List.length_append, List.length_singleton] at hle
  have hbound : Task.weight w.sequence (.group n) + 1 ≤ depthBound s := by
    rw [depthBound, hs.size, hweight]
    omega
  refine Pays.perform ((keeps_performBelow A _).group hs.isBody hw hes ?_ ?_) hbound
  · rw [hitems, hweight]
    exact Nat.lt_succ_self _
  · rw [hitems]

private theorem pays_reduce (A : Account) (hs : s.IsPrepared n items body) :
    A.Pays s (reduce s) ⟨s, []⟩ (A.due false (items ++ [.closing])) fun _ _ spent ↦
      spent + A.due true [] = A.due false (items ++ [.closing]) := by
  have hw : A.At ⟨s, []⟩ s (enclosed n body) 0 := ⟨holds_of_isPrepared hs, rfl⟩
  rw [reduce]
  refine hw.report fun w hw ↦ ?_
  rw [hs.represents.head]
  rw [A.price_reducing, Nat.zero_add] at hw
  refine (pays_outerGroup hs hw).2.bind (by omega) ?_
  rintro value w es spent hw ⟨x, rfl, htotal⟩
  have hlength : w.sequence.length = 1 := hw.represents.length
  refine ensures_get ?_
  rw [if_neg (not_not.mpr hlength)]
  refine hw.number rfl fun w hw ↦ ?_
  refine hw.report fun w hw ↦ ?_
  rw [A.price_result] at hw
  rw [Nat.zero_add] at htotal
  exact pays_pure hw htotal

/-- The evaluation of a prepared sequence ends as its reduction does. -/
theorem ends_ofSequence (A : Account) (hs : s.IsPrepared n items body) :
    ∃ w, w.history.reverse = (Evaluation.ofSequence s).history ∧
      A.Ends s (A.due false (items ++ [.closing]))
        (fun _ _ spent ↦ spent + A.due true [] = A.due false (items ++ [.closing])) w
        (Evaluation.ofSequence s).result :=
  ⟨_, rfl, A.pays_reduce hs⟩

/-- **A reduction never spends more than is due to its expression.** -/
theorem cost_history_le (A : Account) (hs : s.IsPrepared n items body) :
    A.cost (Evaluation.ofSequence s).history ≤ A.due false (items ++ [.closing]) := by
  obtain ⟨w, hhistory, hends⟩ := A.ends_ofSequence hs
  rw [← hhistory, cost_reverse]
  generalize (Evaluation.ofSequence s).result = result at hends
  cases hends with
  | value hw htotal => exact hw.cost_eq ▸ Nat.le.intro htotal
  | error hw hle => exact hw.cost_eq ▸ hle

/-- **A reduction that has a value spends all that is due to its expression.** -/
theorem cost_history_eq {x : Float} (A : Account) (hs : s.IsPrepared n items body)
    (hx : (Evaluation.ofSequence s).result = .ok x) :
    A.cost (Evaluation.ofSequence s).history + A.due true []
      = A.due false (items ++ [.closing]) := by
  obtain ⟨w, hhistory, hends⟩ := A.ends_ofSequence hs
  rw [hx] at hends
  rw [← hhistory, cost_reverse]
  cases hends with
  | value hw htotal => exact hw.cost_eq ▸ htotal

end Reduction.Account

end Calculator
