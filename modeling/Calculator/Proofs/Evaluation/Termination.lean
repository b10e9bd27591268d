import Calculator.Proofs.Evaluation.Moments
import Calculator.Proofs.Evaluation.Safety
import Calculator.Proofs.Evaluation.Spending
import Calculator.Proofs.Expression.ItemRuns

/-!
# Evaluation ends

Every evaluation ends with a value or an error, although a reduction puts in cells of its own and
comes back to numbers it has already passed. The bounds of the definitions are idle: each task
weighs less than its caller and each round of a loop leaves less behind its handle, so a recursion
on the weight alone does the same.

## How many cells there are

A reduction puts in one cell for each run of minus signs that becomes a factor. The account that
charges each new cell says so: what is due to items is the number of such runs among them.
-/

namespace Calculator

open Climbing (Item binaryOperator minusRun readItems)
open Reduction Sequence

/-! ## New cells -/

/-- How many runs of minus signs among items become factors. -/
def factorRuns (behindOperand : Bool) (items : List Item) : Nat :=
  (MinusRun.runsFrom ⟨behindOperand, 0⟩ (items.map Item.token)).countP (!·.isBinary)

theorem factorRuns_cons {item : Item} (hitem : item ≠ .operator '-') (behindOperand : Bool)
    (items : List Item) :
    factorRuns behindOperand (item :: items) = factorRuns item.endsOperand items := by
  rw [factorRuns, MinusRun.runsFrom_of_ne_minus hitem, factorRuns]

/-- A run counts if no operand ends before it, and what is behind it counts as before. -/
theorem factorRuns_minus (behindOperand behindOperand' : Bool) (items : List Item) :
    factorRuns behindOperand (.operator '-' :: items)
      = (if behindOperand then 0 else 1) + factorRuns behindOperand' (minusRun true items).2 := by
  obtain ⟨length, -, hrun⟩ :=
    MinusRun.runsFrom_minusRun behindOperand behindOperand' true 0 rfl items
  have hfirst : factorRuns behindOperand (.operator '-' :: items)
      = (MinusRun.runsFrom ⟨behindOperand, 0 + 1⟩ (items.map Item.token)).countP
        (!·.isBinary) := rfl
  rw [hfirst, hrun, List.countP_cons, factorRuns]
  cases behindOperand <;> simp [Nat.add_comm]

/-- The runs that become factors are among the runs in the tokens. -/
theorem factorRuns_le {tokens : List Token} {items : List Item}
    (h : readItems tokens = .ok items) :
    factorRuns false (items ++ [.closing]) ≤ (minusRuns tokens).length := by
  have hclosing : ([Item.closing].map Item.token) = [.closing] := rfl
  rw [factorRuns, List.map_append, hclosing, MinusRun.runsFrom_append_closing,
    MinusRun.runsFrom_map_token (WritesItems.of_readItems h).reads]
  exact List.countP_le_length

/-- The account of new cells: each costs one, and each run that becomes a factor is due one. -/
def Reduction.Account.insertions : Account where
  price
    | .edit e => if e.isInsertion then 1 else 0
    | .start _ | .look _ | .report _ => 0
  due := factorRuns
  price_start _ := rfl
  price_look _ := rfl
  price_set _ _ := rfl
  price_remove _ := rfl
  price_reducing _ := rfl
  price_result _ := rfl
  due_number _ _ := factorRuns_cons (by rintro ⟨⟩) _ _
  due_opening _ := factorRuns_cons (by rintro ⟨⟩) _ _
  due_closing _ := factorRuns_cons (by rintro ⟨⟩) _ _
  due_function _ _ _ _ := (factorRuns_cons (by rintro ⟨⟩) _ _).trans (Nat.zero_add _).symm
  due_factor _ _ items := by
    rw [factorRuns_minus false false items, factorRuns_cons (by decide)]
    rfl
  due_operator {symbol} _ _ _ _ items _ := by
    rw [binaryOperator]
    split
    · next hsymbol =>
      subst hsymbol
      rw [factorRuns_minus true false items]
      simp
    · next hsymbol =>
      have hoperator : Item.operator symbol ≠ .operator '-' := fun h ↦ hsymbol (Item.operator.inj h)
      rw [factorRuns_cons hoperator]
      simp [Item.endsOperand]

theorem Reduction.Account.cost_insertions (history : List Step) :
    insertions.cost history = (history.filterMap Step.edit?).countP Edit.isInsertion := by
  induction history with
  | nil => rfl
  | cons step history ih =>
    rw [cost, ih, List.filterMap_cons]
    cases step with
    | edit e =>
      rw [Step.edit?, List.countP_cons, Nat.add_comm]
      rfl
    | _ => exact Nat.zero_add _

/-! ## How many slots there are -/

variable {tokens : List Token} {s : Sequence}

private theorem isInsertion_pairingEdits (h : Handle) (tokens : List Token) (stack : List Handle) :
    ∀ e ∈ pairingEdits h tokens stack, ¬ e.isInsertion := by
  fun_induction pairingEdits h tokens stack with
  | case1 => rintro e ⟨⟩
  | case2 h tokens stack ih => exact ih
  | case3 => rintro e ⟨⟩
  | case4 h tokens opening stack ih =>
    intro e he
    rcases List.mem_cons.mp he with rfl | he
    · exact Bool.false_ne_true
    rcases List.mem_cons.mp he with rfl | he
    · exact Bool.false_ne_true
    · exact ih e he
  | case5 h token tokens stack _ _ _ ih => exact ih

private theorem isInsertion_settlingEdits (s : Sequence) :
    ∀ e ∈ s.settlingEdits, ¬ e.isInsertion := by
  intro e he
  obtain ⟨h, -, rfl⟩ := List.mem_map.mp he
  exact Bool.false_ne_true

/-- A preparation puts in a cell for each token, and the two outer parentheses. -/
theorem countP_preparationEdits_le (tokens : List Token) :
    (preparationEdits tokens).countP Edit.isInsertion ≤ tokens.length + 2 := by
  have hpush : (tokens.map fun token ↦ Edit.pushBack (.lexeme token)).countP Edit.isInsertion
      ≤ tokens.length := by
    refine List.countP_le_length.trans ?_
    rw [List.length_map]
  rw [preparationEdits, List.countP_append, List.countP_append,
    List.countP_eq_zero.mpr (isInsertion_pairingEdits 0 tokens [])]
  split
  · next s _ =>
    rw [editsAfterPairing, List.countP_append,
      List.countP_eq_zero.mpr (isInsertion_settlingEdits s)]
    split
    · next settled _ =>
      have henclose : (enclosingEdits settled.slots.size).countP Edit.isInsertion = 2 := rfl
      omega
    · rw [List.countP_nil]
      omega
  · rw [List.countP_nil]
    omega

/-- A reduction puts in at most one cell for each run of minus signs. -/
theorem countP_history_le (tokens : List Token) :
    ((Evaluation.ofTokens tokens).history.filterMap Step.edit?).countP Edit.isInsertion
      ≤ (minusRuns tokens).length := by
  rw [Evaluation.ofTokens]
  cases hprepare : prepare tokens with
  | error cause => exact Nat.zero_le _
  | ok s =>
    obtain ⟨items, body, hitems, hs⟩ := exists_isPrepared hprepare
    rw [← Account.cost_insertions]
    exact (Account.insertions.cost_history_le hs).trans (factorRuns_le hitems)

theorem size_slots_le (tokens : List Token) (k : Nat) :
    (empty.replay (((Evaluation.steps tokens).take k).filterMap Step.edit?)).slots.size
      ≤ tokens.length + 2 + (minusRuns tokens).length := by
  have hsublist : (((Evaluation.steps tokens).take k).filterMap Step.edit?).Sublist
      ((Evaluation.steps tokens).filterMap Step.edit?) :=
    (List.take_sublist k _).filterMap _
  have hempty : empty.slots.size = 0 := rfl
  rw [size_replay, hempty, Nat.zero_add]
  calc (((Evaluation.steps tokens).take k).filterMap Step.edit?).countP Edit.isInsertion
    _ ≤ ((Evaluation.steps tokens).filterMap Step.edit?).countP Edit.isInsertion :=
      hsublist.countP_le
    _ = (preparationEdits tokens).countP Edit.isInsertion
        + ((Evaluation.ofTokens tokens).history.filterMap Step.edit?).countP Edit.isInsertion := by
      rw [Evaluation.steps, List.filterMap_append, filterMap_edit, List.countP_append]
    _ ≤ tokens.length + 2 + (minusRuns tokens).length :=
      Nat.add_le_add (countP_preparationEdits_le tokens) (countP_history_le tokens)

/-- The bound is attained: two tokens, two outer parentheses and the product behind a factor. -/
example :
    (empty.replay ((Evaluation.steps [.operator '-', .number "2"]).filterMap
      Step.edit?)).slots.size = 2 + 2 + 1 := by
  decide +kernel

/-! ## Every evaluation ends -/

/-- The evaluation of tokens ends, and its bounds have no part in that. -/
structure Terminates (tokens : List Token) : Prop where
  /-- It ends with a value or with an error of the expression. -/
  ends : (∃ x, (Evaluation.ofTokens tokens).result = .ok x) ∨
    ∃ cause, (Evaluation.ofTokens tokens).result = .error (.error cause)
  /-- Every task weighs less than the one that calls it. -/
  descends : ∀ s root, prepare tokens = .ok s → s.head = some root →
    EndsAs (perform (depthBound s) (.group root))
      (performBelow (Task.weight s (.group root) + 1) (.group root)) ⟨s, [.report (.reducing s)]⟩
  /-- At every moment, the loop over the minus signs behind any handle leaves less behind it in each
  round. -/
  loops : ∀ s, prepare tokens = .ok s → ∀ k history, ∀ h ∈ (Evaluation.sequenceAt s k).handles,
    EndsAs (dropMinusRun h)
      (dropMinusSignsBelow h ((Evaluation.sequenceAt s k).weightBehind h + 1) true)
      ⟨Evaluation.sequenceAt s k, history⟩
  /-- At every moment there are few slots. -/
  slots : ∀ k, (empty.replay (((Evaluation.steps tokens).take k).filterMap Step.edit?)).slots.size
    ≤ tokens.length + 2 + (minusRuns tokens).length

/-- **Every evaluation terminates**, by a measure on its sequence. -/
theorem terminates (tokens : List Token) : Terminates tokens where
  ends := by
    rw [result_ofTokens]
    cases readValue tokens with
    | ok x => exact .inl ⟨x, rfl⟩
    | error cause => exact .inr ⟨cause, rfl⟩
  descends s root hprepare hroot := by
    obtain ⟨items, body, -, hs⟩ := exists_isPrepared hprepare
    have hhead := hs.represents.head.symm.trans hroot
    cases hhead
    have hw : Account.insertions.At ⟨s, [.report (.reducing s)]⟩ s
        (enclosed tokens.length body) 0 := ⟨.step (holds_of_isPrepared hs) .report, rfl⟩
    exact (Account.pays_outerGroup hs hw).1
  loops s hprepare k history h hh := by
    obtain ⟨items, body, -, hs⟩ := exists_isPrepared hprepare
    obtain ⟨es, hchronicle⟩ := exists_chronicle_at hs k
    rw [hchronicle.represents.handles_eq] at hh
    exact endsAs_dropMinusRun hchronicle.represents hh
  slots := size_slots_le tokens

end Calculator
