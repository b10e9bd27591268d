import Calculator.Evaluation
import Calculator.Proofs.Climbing.Reading
import Calculator.Proofs.Reduction.Tasks
import Calculator.Proofs.Sequence.Prepared

/-!
# Evaluation is the plain reading

Reducing a prepared sequence in place has the value that precedence climbing reads off the tokens,
or the same error with the same data, for every list of tokens.

The reduction of a whole expression is one task, that of the outer group, and reading it is one
call. Both are nested as deep as they like: preparation gives the sequence two cells more than
there are tokens, so the two bounds are one number, and reading never reaches it.
-/

namespace Calculator

open Reduction Sequence
open Climbing (Item readItems readGroup)

variable {s : Sequence} {n : Nat} {items : List Item} {body : List Entry}

/-! ## Reducing a prepared sequence -/

theorem holds_of_isPrepared (hs : s.IsPrepared n items body) :
    Workspace.Holds ⟨s, []⟩ s (enclosed n body) :=
  .origin hs.represents (IsBody.settled (.group hs.isBody .nil))

/-- After the outer group one cell is left, and it is a number. -/
theorem simulates_result {w : Workspace} {h : Handle} {x : Float}
    (hw : w.Holds s [(h, .number x)]) :
    Simulates s
      (do
        let left := (← get).sequence
        if left.length ≠ 1 then fail (.leftoverCells left.text)
        else
          let x ← number h
          report (.result x)
          return x)
      w (fun x y _ ↦ x = y) (pure x) := by
  have hlength : w.sequence.length = 1 := hw.represents.length
  have hes : [(h, Cell.number x)] = [] ++ (h, .number x) :: [] := rfl
  refine ensures_get ?_
  rw [if_neg (not_not.mpr hlength)]
  refine simulates_number hw hes fun w hw ↦ ?_
  refine ensures_report hw fun w hw ↦ ?_
  exact simulates_pure hw rfl

private theorem simulates_reduce (hs : s.IsPrepared n items body) :
    Simulates s (reduce s) ⟨s, []⟩ (fun x y _ ↦ x = y)
      (Climbing.group (depthBound s) (items ++ [.closing]) >>= fun answer ↦ pure answer.1) := by
  have hitems : itemsOf (body ++ [(n + 1, .closing n)]) = items ++ [.closing] := by
    rw [itemsOf_append, hs.itemsOf_eq]
    rfl
  have hes : enclosed n body
      = [] ++ (n, .opening (n + 1)) :: (body ++ (n + 1, .closing n) :: []) := rfl
  rw [reduce, ← hitems]
  refine ensures_report (holds_of_isPrepared hs) fun w hw ↦ ?_
  rw [hs.represents.head]
  refine ((follows_perform _).group hs.isBody hw hes).bind ?_
  rintro h ⟨x, _⟩ w es hw ⟨rfl, -⟩
  exact simulates_result hw

theorem Agrees.eq_of_some {α : Type} {w : Workspace} {answer : ExceptT EvalError Option α}
    {result : Except Fault α} {r : Except EvalError α}
    (h : Agrees s (fun x y _ ↦ x = y) w answer result) (hr : answer = ExceptT.mk (some r)) :
    result = r.mapError Fault.error ∧ ∃ es, w.Holds s es := by
  cases h with
  | exhausted _ => cases hr
  | error hw =>
    cases hr
    exact ⟨rfl, _, hw⟩
  | value hw hgood =>
    cases hr
    exact ⟨congrArg Except.ok hgood, _, hw⟩

/-- What a reduction of a prepared sequence ends with, and that its history is a chronicle. -/
theorem ofSequence_spec (hs : s.IsPrepared n items body) :
    (Evaluation.ofSequence s).result
        = ((readGroup (items ++ [.closing])).map Prod.fst).mapError Fault.error ∧
      ∃ s' es, Chronicle s (Evaluation.ofSequence s).history.reverse s' es := by
  have hlength := hs.length_le
  have hweight := Climbing.weight_le_length (items ++ [.closing])
  rw [List.length_append, List.length_singleton] at hweight
  -- The bound counts slots, and so covers four levels for each unit of the items' weight.
  have hbound : 4 * Climbing.weight (items ++ [.closing]) + 2 ≤ depthBound s := by
    rw [depthBound, hs.size]
    omega
  have hgroup :=
    ((Climbing.settles _).group (items ++ [.closing]) (Nat.le_refl _)).eq_answerAt hbound
  have hanswer : (Climbing.group (depthBound s) (items ++ [.closing]) >>= fun answer ↦
      (pure answer.1 : ExceptT EvalError Option Float))
        = ExceptT.mk (some ((readGroup (items ++ [.closing])).map Prod.fst)) := by
    rw [hgroup, readGroup]
    cases Climbing.answerAt _ _ <;> rfl
  obtain ⟨hresult, es, hw⟩ := Agrees.eq_of_some (simulates_reduce hs) hanswer
  have hhistory : (Evaluation.ofSequence s).history.reverse
      = ((reduce s).run.run ⟨s, []⟩).2.history := List.reverse_reverse _
  rw [hhistory]
  exact ⟨hresult, _, es, hw⟩

/-! ## Evaluating tokens -/

/-- The value of an expression, read without a sequence and without a bound. -/
def readValue (tokens : List Token) : Except EvalError Float := do
  let items ← readItems tokens
  let (x, _) ← readGroup (items ++ [.closing])
  return x

/-- An evaluation ends as the reading does: no handle was out of range and the bound was kept. -/
theorem result_ofTokens (tokens : List Token) :
    (Evaluation.ofTokens tokens).result = (readValue tokens).mapError Fault.error := by
  have hprepare := prepare_spec tokens
  rw [Evaluation.ofTokens, readValue]
  cases hitems : readItems tokens with
  | error cause =>
    rw [hitems] at hprepare
    rw [hprepare]
    rfl
  | ok items =>
    rw [hitems] at hprepare
    obtain ⟨s, body, hok, hs⟩ := hprepare
    rw [hok]
    refine (ofSequence_spec hs).1.trans ?_
    simp only [bind, Except.bind]
    cases readGroup (items ++ [.closing]) <;> rfl

theorem evaluate_eq_readValue (tokens : List Token) : evaluate tokens = readValue tokens := by
  rw [evaluate, Evaluation.value, result_ofTokens]
  cases readValue tokens <;> rfl

/-- **Evaluation in place is precedence climbing on lists**: the same value or the same error. -/
theorem evaluate_refines (tokens : List Token) :
    Climbing.evaluate tokens = some (evaluate tokens) := by
  rw [Climbing.evaluate_eq, evaluate_eq_readValue]
  rfl

end Calculator
