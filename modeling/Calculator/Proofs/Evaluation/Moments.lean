import Calculator.Proofs.Evaluation.Refinement

/-!
# The moments of a reduction

A reduction enters every step into its history, so the edits among the first steps tell how the
sequence looks when the next one is taken. At each of these moments the sequence stands for a list
of entries that moves have led to, whether the reduction succeeds in the end or fails.
-/

namespace Calculator

open Reduction Sequence

/-- The sequence after the first `k` steps of its reduction. -/
def Evaluation.sequenceAt (s : Sequence) (k : Nat) : Sequence :=
  s.replay (((Evaluation.ofSequence s).history.take k).filterMap Step.edit?)

variable {tokens : List Token} {s : Sequence} {n : Nat} {items : List Climbing.Item}
  {body : List Entry}

/-- Only the tokens of an expression that can be prepared have moments. -/
theorem exists_isPrepared (h : prepare tokens = .ok s) :
    ∃ items body, Climbing.readItems tokens = .ok items ∧
      s.IsPrepared tokens.length items body := by
  have hprepare := prepare_spec tokens
  rw [h] at hprepare
  cases hitems : Climbing.readItems tokens with
  | error cause =>
    rw [hitems] at hprepare
    cases hprepare
  | ok items =>
    rw [hitems] at hprepare
    obtain ⟨s', body, hok, hs⟩ := hprepare
    cases hok
    exact ⟨items, body, rfl, hs⟩

/-- What was done up to a moment is a chronicle. -/
theorem exists_chronicle_at (hs : s.IsPrepared n items body) (k : Nat) :
    ∃ es, Chronicle s ((Evaluation.ofSequence s).history.take k).reverse
      (Evaluation.sequenceAt s k) es := by
  obtain ⟨-, _, _, hchronicle⟩ := ofSequence_spec hs
  rw [← List.take_append_drop k (Evaluation.ofSequence s).history, List.reverse_append]
    at hchronicle
  obtain ⟨s', es, hearlier⟩ := hchronicle.exists_earlier
  rw [Evaluation.sequenceAt, ← hearlier.eq_replay_of_reverse]
  exact ⟨es, hearlier⟩

/-- A history around one of its steps, the newest step first. -/
theorem reverse_eq_of_getElem? {α : Type} {as : List α} {a : α} {k : Nat} (h : as[k]? = some a) :
    as.reverse = (as.drop (k + 1)).reverse ++ a :: (as.take k).reverse := by
  obtain ⟨hk, rfl⟩ := List.getElem?_eq_some_iff.mp h
  have hsplit := (List.take_append_drop k as).symm
  rw [← List.getElem_cons_drop hk] at hsplit
  conv_lhs => rw [hsplit]
  simp

/-- The step taken at a moment is a move from the entries of that moment. -/
theorem exists_move_at (hs : s.IsPrepared n items body) {k : Nat} {step : Step}
    (hstep : (Evaluation.ofSequence s).history[k]? = some step) :
    ∃ es es', Chronicle s ((Evaluation.ofSequence s).history.take k).reverse
        (Evaluation.sequenceAt s k) es ∧
      Move (Evaluation.sequenceAt s k).slots.size es step es' := by
  obtain ⟨-, _, _, hchronicle⟩ := ofSequence_spec hs
  rw [reverse_eq_of_getElem? hstep] at hchronicle
  obtain ⟨s', es, es', hearlier, hmove⟩ := hchronicle.exists_move
  rw [Evaluation.sequenceAt, ← hearlier.eq_replay_of_reverse]
  exact ⟨es, es', hearlier, hmove⟩

end Calculator
