import Calculator.Proofs.Evaluation.Brackets
import Calculator.Proofs.Evaluation.Record
import Calculator.Proofs.Reduction.Rounds

/-!
# The contract of precedence climbing

Folding operators into a number leaves the number where it was, and touches neither what is before
it nor the parenthesis that closes the group around it, nor anything behind that. It ends where no
operator of its least priority or above follows, so the loop that calls it for a right operand goes
round with smaller and smaller thresholds, at most twice.

## Every moment and every number

The contract is one of the code and not of its callers, so it is not only said of the calls that an
evaluation makes. At any moment, and from any number that is linked then, a run with any least
priority keeps it. Most such runs are of no use to an evaluation: they may begin between two edits
that belong together, and meet brackets of which one is out already.
-/

namespace Calculator

open Reduction Sequence

variable {tokens : List Token} {s : Sequence} {n k : Nat} {items : List Climbing.Item}
  {body before after : List Entry} {left : Handle} {x : Float} {least : Nat}

/-! ## Folded operators -/

/-- A sequence in which operators were folded into the number at `left`, between the entries
`before` and `after` of an earlier one; `after'` is what is behind the number now. -/
structure Sequence.FoldsTo (s : Sequence) (before : List Entry) (left : Handle)
    (after after' : List Entry) (least : Nat) : Prop where
  number : ∃ x : Float, x.isFinite ∧ s.Represents (before ++ (left, .number x) :: after')
  /-- A closing parenthesis whose partner is not behind `left` closes a group around it, or has lost
  its partner. It stays, and so does all that is behind it. -/
  closing : ∀ inner opening closing behind,
    after = inner ++ (closing, .closing opening) :: behind →
      (opening, .opening closing) ∉ after →
      ∃ inner', after' = inner' ++ (closing, .closing opening) :: behind
  /-- What follows is no operator of the least priority or above. -/
  ends : ∀ operator p, operatorIn after' = some (operator, p) → p < least

theorem Reduction.Folds.exists_foldsTo {w : Workspace} (h : Folds before left after least w) :
    ∃ after', w.sequence.FoldsTo before left after after' least := by
  obtain ⟨x, after', hw, hafter, hends⟩ := h
  exact ⟨after', ⟨x, hw.isPlain rfl, hw.represents⟩,
    fun _ _ _ _ hsplit hout ↦ hafter.exists_closing hsplit hout, hends⟩

/-! ## Every moment -/

/-- At every moment the partners of all opening parentheses are linked. -/
theorem exists_hasEntries_at (hs : s.IsPrepared n items body) (k : Nat) :
    ∃ es, (Evaluation.workspaceAt s k).HasEntries es := by
  obtain ⟨es, hchronicle⟩ := exists_chronicle_at hs k
  have hbody : IsNested body := hs.isBody.mono fun _ ↦ Cell.isLoose_of_isPlain
  have hnested := hchronicle.isNested hs.represents (.group hbody .nil)
  refine ⟨es, hchronicle.represents, hchronicle.settled, fun opening closing hmem ↦ ?_⟩
  obtain ⟨first, last, rfl⟩ := List.append_of_mem hmem
  obtain ⟨inner, rest, rfl, -⟩ := hnested.partner rfl
  simp

/-- The contract of precedence climbing at a moment of an evaluation, for a number that stands
between the entries `before` and `after`. -/
structure Evaluation.ClimbsAt (s : Sequence) (k : Nat) (before : List Entry) (left : Handle)
    (after : List Entry) : Prop where
  linked : ∃ x, (sequenceAt s k).Represents (before ++ (left, .number x) :: after)
  /-- A run that answers has folded operators into the number, and answers with its handle. -/
  folds : ∀ least depth value w,
    (perform depth (.expression left least)).run.run (workspaceAt s k) = (.ok value, w) →
      value = left ∧ ∃ after', w.sequence.FoldsTo before left after after' least
  /-- Behind any operator, the loop that calls such runs does what it does when it is only allowed
  two rounds, each with a threshold below all priorities that it has folded. -/
  rounds : ∀ symbol p, priority symbol = some p → ∀ depth,
    (guardedRounds depth 2 [] left p).run.run (workspaceAt s k)
      = (some <$> perform depth (.rightOperand left p)).run.run (workspaceAt s k)
  /-- The evaluation's own tasks are among these runs: one that begins at the moment `k` is run to a
  later moment, whatever its bound, as long as it is large enough. -/
  calls : ∀ task, (ofSequence s).history[k]? = some (.start task) →
    ∃ bound answer later, k < later ∧ answer ≠ .error .exhausted ∧
      ∀ depth ≥ bound,
        (perform depth task).run.run (workspaceAt s k) = (answer, workspaceAt s later)

/-- **The contract of precedence climbing holds at every moment, for every linked number.** -/
theorem climbsAt_of_mem_entries (h : prepare tokens = .ok s)
    (hleft : (left, .number x) ∈ (Evaluation.sequenceAt s k).entries) :
    ∃ before after, Evaluation.ClimbsAt s k before left after := by
  obtain ⟨items, body, -, hs⟩ := exists_isPrepared h
  obtain ⟨es, hw⟩ := exists_hasEntries_at hs k
  have hsequence : (Evaluation.sequenceAt s k).Represents es := hw.represents
  rw [hsequence.entries_eq] at hleft
  obtain ⟨before, after, rfl⟩ := List.append_of_mem hleft
  refine ⟨before, after, ⟨x, hsequence⟩, fun least depth value w hrun ↦ ?_,
    fun symbol p hp depth ↦ guardedRounds_two (priority_bounds hp).1 hw,
    fun task ↦ Evaluation.exists_call hs⟩
  have hfolds : Grants (perform depth (.expression left least)) _ _ :=
    (keepsBehind_perform depth).expression hw
  rw [Grants, Ensures, hrun] at hfolds
  obtain ⟨hvalue, hfolds⟩ := hfolds value rfl
  exact ⟨hvalue, hfolds.exists_foldsTo⟩

/-- A group whose right operand is a quotient by a signed number; a division by zero behind it fails
in the end. -/
def signedQuotient : List Token :=
  [.number "2", .operator '-', .opening, .number "8", .operator '+', .number "6", .operator '/',
    .operator '-', .number "3", .operator '*', .number "4", .operator '-', .number "1", .closing,
    .operator '/', .number "0"]

/-- The quotient is folded with the priority of products, up to the subtraction behind it, and as
the right operand of a sum it takes one round. -/
theorem climbsAt_of_signedQuotient :
    ∃ s, prepare signedQuotient = .ok s ∧
      (5, .number 6.0) ∈ (Evaluation.sequenceAt s 30).entries ∧
      (Evaluation.ofSequence s).history[30]? = some (.start (.expression 5 2)) ∧
      ((perform 20 (.expression 5 2)).run.run (Evaluation.workspaceAt s 30)).1 = .ok 5 ∧
      ((guardedRounds 20 2 [] 5 1).run.run (Evaluation.workspaceAt s 30)).1 = .ok (some 5) ∧
      ∃ before after, Evaluation.ClimbsAt s 30 before 5 after := by
  have hprepare : prepare signedQuotient = .ok ((prepare signedQuotient).toOption.getD empty) := by
    decide +kernel
  have hleft : (5, Cell.number 6.0) ∈ (Evaluation.sequenceAt
      ((prepare signedQuotient).toOption.getD empty) 30).entries := by
    decide +kernel
  exact ⟨_, hprepare, hleft, by decide +kernel, by decide +kernel, by decide +kernel,
    climbsAt_of_mem_entries hprepare hleft⟩

end Calculator
