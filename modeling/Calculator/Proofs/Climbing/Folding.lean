import Calculator.Proofs.Climbing.Reading

/-!
# Laws of folding

An expression folds its operators from left to right, so it can stop at a higher priority first and
go on from there at the lower one. A right operand folds in stages, first the operators of the
priority that comes next and then the others; by that law the stages are one expression, whose least
priority is the lowest that takes a right operand from the operator on its left.
-/

namespace Calculator

namespace Climbing

@[simp] theorem ok_bind {α β : Type} (a : α) (f : α → Except EvalError β) :
    Except.ok a >>= f = f a := rfl

theorem bind_congr_ok {α β : Type} {m : Except EvalError α} {f g : α → Except EvalError β}
    (h : ∀ a, m = .ok a → f a = g a) : m >>= f = m >>= g := by
  cases m with
  | error cause => rfl
  | ok a => exact h a rfl

theorem weight_lt_of_readOperation {x z : Float} {p : Nat} {run : Char × List Item}
    {rest : List Item} (h : readOperation x p run = .ok (z, rest)) :
    weight rest < weight run.2 := by
  obtain ⟨symbol, _ | ⟨item, items⟩⟩ := run
  · cases h
  rw [readOperation] at h
  · cases hoperand : readOperand (item :: items) with
    | error cause => rw [hoperand] at h; cases h
    | ok answer =>
      cases hright : readRight answer.1 p answer.2 with
      | error cause => simp [hoperand, bind, Except.bind, hright] at h
      | ok answer' =>
        have hlt := weight_lt_of_readOperand hoperand
        have hle := weight_le_of_readRight hright
        cases hvalue : (Computation.combination x symbol answer'.1).value with
        | error cause => simp [hoperand, bind, Except.bind, hright, hvalue] at h
        | ok z =>
          simp [hoperand, bind, Except.bind, hright, hvalue, pure, Except.pure] at h
          rw [← h.2]
          dsimp only
          omega
  · exact List.cons_ne_nil _ _

/-- **Folding in stages.** An expression may stop at a higher priority first. -/
theorem readExpression_bind_readExpression {least q : Nat} (hle : least ≤ q) (x : Float)
    (items : List Item) :
    (do let (y, rest) ← readExpression x q items; readExpression y least rest)
      = readExpression x least items := by
  -- The items behind an operation are no part of the given ones, but they are lighter.
  induction hweight : weight items using Nat.strongRecOn generalizing x items with
  | _ n ih =>
    by_cases hp : ∃ p, leading items = some p ∧ q ≤ p
    · obtain ⟨p, hp, hq⟩ := hp
      obtain ⟨symbol, rest, rfl, hpriority⟩ := exists_of_leading hp
      have hleast := Nat.le_trans hle hq
      rw [readExpression_operator hpriority hq, readExpression_operator hpriority hleast,
        bind_assoc]
      refine bind_congr_ok fun answer hanswer ↦ ?_
      have hlt := weight_lt_of_readOperation hanswer
      have hrun := weight_binaryOperator symbol rest
      rw [weight_cons] at hweight
      exact ih _ (by omega) _ _ rfl
    · rw [readExpression_end]
      · rfl
      · intro p hleading
        exact Nat.lt_of_not_le fun hq ↦ hp ⟨p, hleading, hq⟩

/-- The lowest priority that takes a right operand from an operator of priority `p`. -/
def tighter (p : Nat) : Nat := if groupsRight p then p else p + 1

theorem le_tighter (p : Nat) : p ≤ tighter p := by
  rw [tighter]
  split <;> omega

theorem takesFrom_iff {p q : Nat} : takesFrom p q ↔ tighter p ≤ q := by
  rw [takesFrom, tighter]
  by_cases hright : groupsRight p
  · rw [if_pos hright]
    constructor
    · rintro (hlt | ⟨rfl, -⟩)
      · exact Nat.le_of_lt hlt
      · exact Nat.le_refl _
    · intro hle
      rcases Nat.lt_or_eq_of_le hle with hlt | heq
      · exact .inl hlt
      · exact .inr ⟨heq.symm, hright⟩
  · rw [if_neg hright]
    constructor
    · rintro (hlt | ⟨-, hq⟩)
      · exact hlt
      · exact absurd hq hright
    · intro hlt
      exact .inl hlt

/-- **A right operand is an expression** of the priorities that take it. -/
theorem readRight_eq (y : Float) (p : Nat) (items : List Item) :
    readRight y p items = readExpression y (tighter p) items := by
  induction hweight : weight items using Nat.strongRecOn generalizing y items with
  | _ n ih =>
    by_cases hq : ∃ q, leading items = some q ∧ takesFrom p q
    · obtain ⟨q, hq, htakes⟩ := hq
      -- The first stage folds at priority `q`, the rest at the lowest that still takes the operand.
      rw [readRight_operator hq htakes,
        ← readExpression_bind_readExpression (takesFrom_iff.mp htakes)]
      refine bind_congr_ok fun answer hanswer ↦ ?_
      have hlt := weight_lt_of_readExpression hq (Nat.le_refl q) hanswer
      exact ih _ (by omega) _ _ rfl
    · rw [readRight_end, readExpression_end]
      · intro q hleading
        exact Nat.lt_of_not_le fun hle ↦ hq ⟨q, hleading, takesFrom_iff.mpr hle⟩
      · intro q hleading htakes
        exact hq ⟨q, hleading, htakes⟩

theorem readOperation_eq {items : List Item} (hitems : items ≠ []) (x : Float) (p : Nat)
    (symbol : Char) :
    readOperation x p (symbol, items) = (do
      let (y, items) ← readFrom (tighter p) items
      let z ← (Computation.combination x symbol y).value
      return (z, items)) := by
  rw [readOperation, readFrom, bind_assoc]
  · refine bind_congr_ok fun answer _ ↦ ?_
    dsimp only
    rw [readRight_eq]
  · exact hitems

end Climbing

end Calculator
