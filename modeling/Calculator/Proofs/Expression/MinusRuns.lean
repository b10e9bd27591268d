import Calculator.Expression.MinusRuns
import Calculator.Proofs.Expression.Signed

/-!
# Minus signs and their meaning

The reading decides about a run of minus signs when it comes to it: behind an operand the run is an
operator, in front of one a factor. The token before the run tells the same, so all runs can be
replaced beforehand, in any token list, and neither values nor errors change.

## Where the two decisions meet

The reading knows whether it awaits an operand, the replacement only what the last token was. In an
expression these agree, and where they do not the reading has failed before it comes to the run.
-/

namespace Calculator

open Climbing (Item minusItems sign)

/-! ## Items with their runs replaced -/

namespace Climbing

/-- The operator that a run of minus signs behind an operand amounts to. -/
def runSymbol (count : Nat) : Char := if count % 2 = 1 then '-' else '+'

/-- What a run of minus signs amounts to, behind an operand that has ended or elsewhere. -/
def runItems (ended : Bool) (count : Nat) : List Item :=
  if count = 0 then []
  else if ended then [.operator (runSymbol count)]
  else [.number (sign count), .operator '*']

/-- Items and the same with all runs of minus signs replaced. -/
inductive Collapses : (ended : Bool) → List Item → List Item → Prop where
  | nil (ended : Bool) : Collapses ended [] []
  | run (ended : Bool) (count : Nat) {item : Item} {rest rest' : List Item} :
      item ≠ .operator '-' → Collapses item.endsOperand rest rest' →
      Collapses ended (minusItems count ++ item :: rest) (runItems ended count ++ item :: rest')

namespace Collapses

variable {item : Item} {rest rest' : List Item}

theorem cons (ended : Bool) (hitem : item ≠ .operator '-')
    (h : Collapses item.endsOperand rest rest') :
    Collapses ended (item :: rest) (item :: rest') := .run ended 0 hitem h

/-- In front of an operand a run is read as its factor. -/
theorem readOperand_run (hitem : item ≠ .operator '-')
    (h : Collapses item.endsOperand rest rest') (count : Nat) :
    Alike (Collapses true) (readOperand (minusItems (count + 1) ++ item :: rest))
      (readOperand (runItems false (count + 1) ++ item :: rest')) := by
  have hfactor : runItems false (count + 1) ++ item :: rest'
      = .number (sign (count + 1)) :: .operator '*' :: item :: rest' := rfl
  have hsign : sign (count + 1) = if decide ((count + 1) % 2 = 1) then -1.0 else 1.0 := by
    rw [sign]
    simp only [decide_eq_true_eq]
  rw [hfactor, readOperand_number, minusItems_succ, List.cons_append, readOperand_minus,
    minusRun_minusItems hitem, Bool.true_xor, ← decide_odd_succ, hsign]
  exact .ok _ (.cons true (by decide) (.cons false hitem h))

/-- Behind an operand a run is read as one operator. -/
theorem binaryOperator_run (hitem : item ≠ .operator '-') (count : Nat) (rest : List Item) :
    binaryOperator '-' (minusItems count ++ item :: rest)
      = (runSymbol (count + 1), item :: rest) := by
  rw [binaryOperator, if_pos rfl, minusRun_minusItems hitem, Bool.true_xor, ← decide_odd_succ,
    runSymbol]
  simp only [decide_eq_true_eq]

private theorem binaryOperator_runSymbol (hitem : item ≠ .operator '-') (count : Nat)
    (rest : List Item) :
    binaryOperator (runSymbol count) (item :: rest) = (runSymbol count, item :: rest) := by
  rw [runSymbol]
  split
  · exact binaryOperator_run hitem 0 rest
  · rfl

private theorem priority_runSymbol (count : Nat) : priority (runSymbol count) = some 1 := by
  rw [runSymbol]
  split <;> decide

private theorem operatorsBegin_run (hitem : item ≠ .operator '-')
    (h : Collapses item.endsOperand rest rest') (count : Nat) :
    OperatorsBegin Collapses (minusItems (count + 1) ++ item :: rest)
      (runItems true (count + 1) ++ item :: rest') := by
  have hoperator : runItems true (count + 1) ++ item :: rest'
      = .operator (runSymbol (count + 1)) :: item :: rest' := rfl
  have hrun := binaryOperator_run hitem count rest
  have hrun' := binaryOperator_runSymbol hitem (count + 1) rest'
  rw [minusItems_succ, List.cons_append, hoperator]
  refine .operator (p := 1) (by decide) (priority_runSymbol (count + 1)) ?_ ?_
  · rw [hrun, hrun']
  · rw [hrun, hrun']
    exact .cons false hitem h

end Collapses

/-- Replacing all runs of minus signs is a congruence. -/
theorem isCongruence_collapses : IsCongruence Collapses where
  operands h := by
    cases h with
    | nil => exact .nil
    | run _ count hitem h =>
      cases count with
      | zero => exact .cons hitem h
      | succ count => exact .minus (by rintro ⟨⟩) (by rintro ⟨⟩) (h.readOperand_run hitem count)
  operators h := by
    cases h with
    | nil => exact .nil
    | @run _ count item rest rest' hitem h =>
      cases count with
      | zero =>
        refine .cons h fun symbol hsymbol ↦ ?_
        subst hsymbol
        have hminus : symbol ≠ '-' := fun hminus ↦ hitem (congrArg Item.operator hminus)
        rw [binaryOperator, binaryOperator, if_neg hminus, if_neg hminus]
        exact ⟨rfl, h⟩
      | succ count => exact h.operatorsBegin_run hitem count

end Climbing

/-! ## Tokens with their runs replaced -/

namespace MinusRun

variable {run : MinusRun} {tokens tokens' : List Token}

private theorem balanced_replacement_append (run : MinusRun) (depth : Nat) (tokens : List Token) :
    Climbing.balanced depth (run.replacement ++ tokens) = Climbing.balanced depth tokens := by
  rw [replacement]
  split
  · rfl
  split
  · exact Climbing.balanced_cons (by rintro ⟨⟩) (by rintro ⟨⟩) depth tokens
  · rw [List.cons_append, Climbing.balanced_cons (by rintro ⟨⟩) (by rintro ⟨⟩)]
    exact Climbing.balanced_cons (by rintro ⟨⟩) (by rintro ⟨⟩) depth tokens

private theorem mapM_replacement (run : MinusRun) :
    run.replacement.mapM Item.ofToken = .ok (Climbing.runItems run.isBinary run.length) := by
  rw [replacement, Climbing.runItems]
  split
  · rfl
  split
  · rfl
  · exact mapM_append_of_ok (writesItems_signLiteral run.length).reads
      (WritesItems.operator '*').reads

private theorem balanced_collapseFrom (run : MinusRun) (depth : Nat) (tokens : List Token) :
    Climbing.balanced depth (collapseFrom run tokens) = Climbing.balanced depth tokens := by
  fun_induction collapseFrom run tokens generalizing depth with
  | case1 run => simpa using balanced_replacement_append run depth []
  | case2 run tokens ih =>
    rw [ih, Climbing.balanced_cons (by rintro ⟨⟩) (by rintro ⟨⟩)]
  | case3 run token tokens hrun ih =>
    rw [balanced_replacement_append]
    exact Climbing.balanced_append_congr (fun depth ↦ ih depth) [token] depth

theorem endsOperand_of_ofToken {token : Token} {item : Item} (h : Item.ofToken token = .ok item) :
    item.endsOperand = token.endsOperand := by
  have htoken := Climbing.eq_of_ofToken h
  cases item with
  | number =>
    obtain ⟨literal, rfl⟩ := htoken
    rfl
  | _ =>
    cases htoken
    rfl

theorem ne_minus_of_ofToken {token : Token} {item : Item} (htoken : token ≠ .operator '-')
    (h : Item.ofToken token = .ok item) : item ≠ .operator '-' := by
  rintro rfl
  exact htoken (Climbing.eq_of_ofToken h)

/-- The tokens behind a run, with all runs replaced, write the items that are meant. -/
theorem mapM_collapseFrom (run : MinusRun) (tokens : List Token) :
    match tokens.mapM Item.ofToken with
    | .ok items => ∃ items', (collapseFrom run tokens).mapM Item.ofToken = .ok items' ∧
        Climbing.Collapses run.isBinary (minusItems run.length ++ (items ++ [.closing]))
          (items' ++ [.closing])
    | .error cause => (collapseFrom run tokens).mapM Item.ofToken = .error cause := by
  fun_induction collapseFrom run tokens with
  | case1 run =>
    refine ⟨_, mapM_replacement run, ?_⟩
    exact .run run.isBinary run.length (by rintro ⟨⟩) (.nil true)
  | case2 run tokens ih =>
    rw [List.mapM_cons]
    cases hread : tokens.mapM Item.ofToken with
    | error cause =>
      rw [hread] at ih
      exact ih
    | ok items =>
      rw [hread] at ih
      obtain ⟨items', hread', h⟩ := ih
      refine ⟨items', hread', ?_⟩
      -- The sign at hand is the last of the run so far.
      have hitems : minusItems (run.length + 1) ++ (items ++ [.closing])
          = minusItems run.length ++ (.operator '-' :: items ++ [.closing]) := by
        rw [minusItems, List.replicate_succ', List.append_assoc]
        rfl
      rwa [hitems] at h
  | case3 run token tokens hrun ih =>
    rw [List.mapM_cons, List.mapM_append, mapM_replacement, List.mapM_cons]
    cases hitem : Item.ofToken token with
    | error cause => rfl
    | ok item =>
      cases hread : tokens.mapM Item.ofToken with
      | error cause =>
        rw [hread] at ih
        rw [ih]
        rfl
      | ok items =>
        rw [hread] at ih
        obtain ⟨items', hread', h⟩ := ih
        rw [hread']
        refine ⟨_, rfl, ?_⟩
        rw [List.append_assoc, List.cons_append, List.cons_append]
        have hends := endsOperand_of_ofToken hitem
        refine .run run.isBinary run.length (ne_minus_of_ofToken hrun hitem) ?_
        rwa [hends]

end MinusRun

/-! ## Runs of the same parity -/

namespace MinusRun

private theorem collapseFrom_append_congr
    (htokens : ∀ run, collapseFrom run tokens = collapseFrom run tokens') (before : List Token)
    (run : MinusRun) :
    collapseFrom run (before ++ tokens) = collapseFrom run (before ++ tokens') := by
  induction before generalizing run with
  | nil => exact htokens run
  | cons token before ih =>
    by_cases htoken : token = .operator '-'
    · subst htoken
      exact ih _
    · rw [List.cons_append, List.cons_append, collapseFrom, collapseFrom, ih]
      · exact htoken
      · exact htoken

private theorem collapseFrom_minusSigns (run : MinusRun) (count : Nat) (after : List Token) :
    collapseFrom run (minusSigns count ++ after)
      = collapseFrom ⟨run.isBinary, run.length + count⟩ after := by
  induction count generalizing run with
  | zero => rfl
  | succ count ih =>
    have hstep : collapseFrom run (minusSigns (count + 1) ++ after)
        = collapseFrom ⟨run.isBinary, run.length + 1⟩ (minusSigns count ++ after) := rfl
    rw [hstep, ih, Nat.add_assoc, Nat.add_comm 1]

private theorem replacement_congr {length length' : Nat} (isBinary : Bool) (hlength : 0 < length)
    (hlength' : 0 < length') (hparity : length % 2 = length' % 2) :
    replacement ⟨isBinary, length⟩ = replacement ⟨isBinary, length'⟩ := by
  rw [replacement, replacement, if_neg (Nat.ne_of_gt hlength), if_neg (Nat.ne_of_gt hlength'),
    hparity]

private theorem collapseFrom_congr {length length' : Nat} (isBinary : Bool) (hlength : 0 < length)
    (hlength' : 0 < length') (hparity : length % 2 = length' % 2) (after : List Token) :
    collapseFrom ⟨isBinary, length⟩ after = collapseFrom ⟨isBinary, length'⟩ after := by
  induction after generalizing length length' with
  | nil => exact replacement_congr isBinary hlength hlength' hparity
  | cons token after ih =>
    by_cases htoken : token = .operator '-'
    · subst htoken
      have hnext : (length + 1) % 2 = (length' + 1) % 2 := by omega
      exact ih (Nat.succ_pos length) (Nat.succ_pos length') hnext
    · rw [collapseFrom, collapseFrom, replacement_congr isBinary hlength hlength' hparity]
      · exact htoken
      · exact htoken

end MinusRun

/-- Two more signs in a run make no difference once the runs are replaced. -/
theorem collapseMinusRuns_of_parity (before after : List Token) (count more : Nat) :
    collapseMinusRuns (before ++ (minusSigns (count + 1 + 2 * more) ++ after))
      = collapseMinusRuns (before ++ (minusSigns (count + 1) ++ after)) := by
  refine MinusRun.collapseFrom_append_congr (fun run ↦ ?_) before _
  rw [MinusRun.collapseFrom_minusSigns, MinusRun.collapseFrom_minusSigns]
  exact MinusRun.collapseFrom_congr run.isBinary (by omega) (by omega) (by omega) after

/-! ## Runs and values -/

/-- **Runs of minus signs can be replaced beforehand.** Behind an operand a run is a subtraction or
a sum, elsewhere a factor, and only its parity matters. -/
theorem evaluate_collapseMinusRuns :
    (∀ tokens, evaluate (collapseMinusRuns tokens) = evaluate tokens) ∧
      ∀ (before after : List Token) (count more : Nat),
        evaluate (before ++ minusSigns (count + 1 + 2 * more) ++ after)
          = evaluate (before ++ minusSigns (count + 1) ++ after) := by
  have hcollapse : ∀ tokens, evaluate (collapseMinusRuns tokens) = evaluate tokens := by
    intro tokens
    refine (evaluate_eq_of_isCongruence Climbing.isCongruence_collapses ?_ ?_).symm
    · exact (MinusRun.balanced_collapseFrom _ 0 tokens).symm
    · exact MinusRun.mapM_collapseFrom ⟨false, 0⟩ tokens
  refine ⟨hcollapse, fun before after count more ↦ ?_⟩
  rw [List.append_assoc, List.append_assoc, ← hcollapse, collapseMinusRuns_of_parity, hcollapse]

end Calculator
