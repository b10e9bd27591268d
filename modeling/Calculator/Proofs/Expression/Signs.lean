import Calculator.Proofs.Expression.Reads
import Calculator.Proofs.Number.Sign

/-!
# Minus signs in front of an operand

How a run of minus signs and the operand behind it are read, by the operator on their left, and what
signs do to values.

## Where the sign goes

A run of minus signs is a factor, so it puts a product into the expression. An addition leaves the
product to its right operand, and a subtraction takes the run as part of its own. All other
operators bind at least as tightly as the product, so they take the factor alone and the product
comes last.
-/

namespace Calculator

/-! ## Reading minus signs -/

namespace Climbing

/-- The factor that minus signs amount to. -/
def sign (count : Nat) : Float := if count % 2 = 1 then -1.0 else 1.0

/-- The operator that a subtraction and the minus signs behind it amount to. -/
def subtractionOrSum (count : Nat) : Operator := if count % 2 = 1 then .add else .subtract

/-- Minus signs in a row. -/
def minusItems (count : Nat) : List Item := List.replicate count (.operator '-')

theorem minusItems_succ (count : Nat) :
    minusItems (count + 1) = .operator '-' :: minusItems count := rfl

variable {right : List Item} {value : Except EvalError Float} {count : Nat}

private theorem ne_minus_of_beginsPrimary {item : Item} (hitem : item.beginsPrimary) :
    item ≠ .operator '-' := by
  rintro rfl
  cases hitem

theorem decide_odd_succ (count : Nat) :
    decide ((count + 1) % 2 = 1) = !decide (count % 2 = 1) := by
  have hodd : (count + 1) % 2 = 1 ↔ ¬ count % 2 = 1 := by omega
  rw [decide_eq_decide.mpr hodd, decide_not]

theorem minusRun_minusItems {item : Item} (hitem : item ≠ .operator '-') (count : Nat) (odd : Bool)
    (rest : List Item) :
    minusRun odd (minusItems count ++ item :: rest)
      = (odd ^^ decide (count % 2 = 1), item :: rest) := by
  induction count generalizing odd with
  | zero =>
    have hnil : minusItems 0 ++ item :: rest = item :: rest := rfl
    rw [hnil, minusRun_cons hitem]
    simp
  | succ count ih =>
    rw [minusItems_succ, List.cons_append, minusRun, ih, decide_odd_succ, Bool.not_xor,
      Bool.xor_not]

/-- A product is not folded into the right operand of an operator that binds as tightly. -/
theorem lt_tighter {p : Nat} (hp : 2 ≤ p) : 2 < tighter p := by
  rw [tighter]
  split
  · next hright =>
    have hp : p = 3 := of_decide_eq_true hright
    omega
  · omega

namespace ReadsAs

variable (hright : ReadsAs right none value) (rest : List Item)
include hright

private theorem readOperand_signs (hcount : 0 < count) :
    readOperand (minusItems count ++ (right ++ rest))
      = .ok (sign count, .operator '*' :: (right ++ rest)) := by
  obtain ⟨item, later, rfl, hitem⟩ := hright.begins
  obtain ⟨count, rfl⟩ := Nat.exists_eq_succ_of_ne_zero (Nat.ne_of_gt hcount)
  -- The first sign is read as the operand's own, and the run behind it turns it over.
  rw [minusItems_succ, List.cons_append, readOperand_minus, List.cons_append,
    minusRun_minusItems (ne_minus_of_beginsPrimary hitem), Bool.true_xor, ← decide_odd_succ]
  simp [sign]

/-- The last operator of a group, with an operand behind it. -/
theorem readExpression_last {symbol : Char} {p least : Nat} (hp : priority symbol = some p)
    (hleast : least ≤ p) (x : Float) :
    Climbing.readExpression x least (.operator symbol :: (right ++ Item.closing :: rest)) = (do
      let y ← value
      let z ← (Computation.combination x symbol y).value
      .ok (z, Item.closing :: rest)) := by
  rw [hright.readExpression hp (by rintro _ ⟨⟩) hleast (List.cons_ne_nil _ _) .atEnd]
  simp only [readExpression_closing]

/-- Signs at the start of a group negate the operand behind them. -/
theorem readGroup_signs (hcount : 0 < count) :
    Climbing.readGroup (minusItems count ++ right ++ Item.closing :: rest) = (do
      let y ← value
      let z ← (Computation.combination (sign count) '*' y).value
      .ok (z, rest)) := by
  have hsigns := hright.readOperand_signs (Item.closing :: rest) hcount
  obtain ⟨count, rfl⟩ := Nat.exists_eq_succ_of_ne_zero (Nat.ne_of_gt hcount)
  rw [minusItems_succ, List.cons_append] at hsigns
  rw [List.append_assoc, minusItems_succ, List.cons_append, readGroup_cons (by rintro ⟨⟩),
    readFrom, hsigns]
  change (Climbing.readExpression _ 1 _ >>= closeGroup) = _
  rw [hright.readExpression_last rest (p := 2) (by decide) (by decide)]
  simp only [bind_assoc]
  rfl

omit rest in
theorem signedGroup (hcount : 0 < count) :
    ReadsAs (Item.opening :: (minusItems count ++ right) ++ [Item.closing]) none
      (do
        let y ← value
        (Computation.combination (sign count) '*' y).value) := by
  refine .ofGroup fun rest _ ↦ ?_
  rw [hright.readGroup_signs rest hcount]
  simp only [bind_assoc]

/-- Behind a sum the signs belong to the right operand. -/
theorem readExpression_add (hcount : 0 < count) (x : Float) :
    Climbing.readExpression x 1
        (.operator '+' :: (minusItems count ++ (right ++ Item.closing :: rest)))
      = (do
        let y ← value
        let y' ← (Computation.combination (sign count) '*' y).value
        let z ← (Computation.combination x '+' y').value
        .ok (z, Item.closing :: rest)) := by
  have hne : minusItems count ++ (right ++ Item.closing :: rest) ≠ [] := by simp
  have hstar : priority '*' = some 2 := by decide
  have hleast : tighter 1 ≤ 2 := by decide
  have hproduct := hright.readExpression_last rest hstar hleast (sign count)
  rw [readExpression_operator (p := 1) (by decide) (by decide), binaryOperator,
    if_neg (by decide), readOperation_eq hne, readFrom, hright.readOperand_signs _ hcount, ok_bind]
  dsimp only
  rw [hproduct]
  simp only [bind_assoc, ok_bind, pure_bind, readExpression_closing]

/-- Behind a subtraction the signs are part of the operator. -/
theorem readExpression_subtract (count : Nat) (x : Float) :
    Climbing.readExpression x 1
        (.operator '-' :: (minusItems count ++ (right ++ Item.closing :: rest)))
      = (do
        let y ← value
        let z ← (Computation.combination x (subtractionOrSum count).symbol y).value
        .ok (z, Item.closing :: rest)) := by
  obtain ⟨item, later, hitems, hitem⟩ := hright.begins
  have hrun : binaryOperator '-' (minusItems count ++ (right ++ Item.closing :: rest))
      = ((subtractionOrSum count).symbol, right ++ Item.closing :: rest) := by
    rw [hitems, List.cons_append, binaryOperator, if_pos rfl,
      minusRun_minusItems (ne_minus_of_beginsPrimary hitem), subtractionOrSum]
    rcases Nat.mod_two_eq_zero_or_one count with h | h <;> simp [h] <;> rfl
  have hpriority : priority (subtractionOrSum count).symbol = some 1 := by
    rw [subtractionOrSum]
    split <;> decide
  rw [← hright.readExpression_last rest hpriority (Nat.le_refl 1),
    readExpression_operator hpriority (Nat.le_refl 1),
    readExpression_operator (p := 1) (by decide) (Nat.le_refl 1), hrun, hitems, List.cons_append,
    binaryOperator_of_beginsPrimary hitem]

/-- Behind any other operator the sign belongs to the left operand. -/
theorem readExpression_tight {symbol : Char} {p : Nat} (hp : priority symbol = some p)
    (hsymbol : symbol ≠ '-') (htight : 2 ≤ p) (hcount : 0 < count) (x : Float) :
    Climbing.readExpression x 1
        (.operator symbol :: (minusItems count ++ (right ++ Item.closing :: rest)))
      = (do
        let z ← (Computation.combination x symbol (sign count)).value
        let y ← value
        let z' ← (Computation.combination z '*' y).value
        .ok (z', Item.closing :: rest)) := by
  have hne : minusItems count ++ (right ++ Item.closing :: rest) ≠ [] := by simp
  have hend : ∀ q, leading (.operator '*' :: (right ++ Item.closing :: rest)) = some q →
      q < tighter p := by
    rintro q ⟨⟩
    exact lt_tighter htight
  rw [readExpression_operator hp (by omega), binaryOperator, if_neg hsymbol,
    readOperation_eq hne, readFrom, hright.readOperand_signs _ hcount, ok_bind]
  dsimp only
  rw [readExpression_end hend]
  simp only [bind_assoc, ok_bind, pure_bind]
  refine bind_congr_ok fun z _ ↦ ?_
  exact hright.readExpression_last rest (p := 2) (by decide) (by decide) z

end ReadsAs

end Climbing

/-! ## Kinds of errors -/

namespace EvalError

/-- An error without its data. -/
inductive Kind where
  | unmatchedParentheses
  | emptyGroup
  | missingOperand
  | missingArgument
  | unexpectedToken
  | domain
  | internal
deriving DecidableEq, Repr

/-- The kind of an error. -/
def kind : EvalError → Kind
  | unmatchedParentheses => .unmatchedParentheses
  | emptyGroup => .emptyGroup
  | missingOperand _ => .missingOperand
  | missingArgument _ => .missingArgument
  | unexpectedToken _ => .unexpectedToken
  | domain _ => .domain
  | internal _ => .internal

end EvalError

/-- A value, or the kind of the error in its place. -/
def valueOrKind (result : Except EvalError Float) : Except EvalError.Kind Float :=
  result.mapError EvalError.kind

/-! ## Signs in values -/

open Climbing (sign subtractionOrSum)

/-- A number with minus signs in front. -/
def signed (count : Nat) (x : Float) : Float := if count % 2 = 1 then -x else x

theorem isFinite_signed {x : Float} (hx : x.isFinite) (count : Nat) :
    (signed count x).isFinite := by
  rw [signed]
  split
  · exact Number.isFinite_neg hx
  · exact hx

private theorem mul_sign {x : Float} (hx : x.isFinite) (count : Nat) :
    x * sign count = signed count x := by
  rw [sign, signed]
  split
  · exact Number.mul_neg_one hx
  · exact Number.mul_one hx

theorem value_mul_sign {x : Float} (hx : x.isFinite) (count : Nat) :
    (Computation.combination x '*' (sign count)).value = .ok (signed count x) := by
  refine Computation.value_of_outcome ?_ (isFinite_signed hx count)
  rw [← mul_sign hx]
  exact Computation.outcome_combination x .multiply _

theorem value_sign_mul {x : Float} (hx : x.isFinite) (count : Nat) :
    (Computation.combination (sign count) '*' x).value = .ok (signed count x) := by
  refine Computation.value_of_outcome ?_ (isFinite_signed hx count)
  rw [← mul_sign hx, Number.mul_comm]
  exact Computation.outcome_combination _ .multiply x

/-- Two computations with one outcome have the same value, or fail in the same way. -/
theorem valueOrKind_value {what what' : Computation} {x : Float} (h : what.outcome = .ok x)
    (h' : what'.outcome = .ok x) : valueOrKind what.value = valueOrKind what'.value := by
  rw [Computation.value, Computation.value, h, h']
  by_cases hx : x.isFinite
  · simp [bind, Except.bind, hx]
  · simp [bind, Except.bind, hx, valueOrKind, Except.mapError, EvalError.kind]

theorem valueOrKind_subtract {y : Float} (hy : y.isFinite) (x : Float) (count : Nat) :
    valueOrKind (Computation.combination x (subtractionOrSum count).symbol y).value
      = valueOrKind (Computation.combination x '-' (signed count y)).value := by
  refine valueOrKind_value (Computation.outcome_combination x _ y) ?_
  refine (Computation.outcome_combination x .subtract _).trans (congrArg Except.ok ?_)
  rw [subtractionOrSum, signed]
  split
  · exact Number.sub_neg x hy
  · rfl

theorem valueOrKind_multiply {x y : Float} (hx : x.isFinite) (hy : y.isFinite) (count : Nat) :
    valueOrKind (Computation.combination (signed count x) '*' y).value
      = valueOrKind (Computation.combination x '*' (signed count y)).value := by
  refine valueOrKind_value (Computation.outcome_combination _ .multiply y) ?_
  refine (Computation.outcome_combination x .multiply _).trans (congrArg Except.ok ?_)
  rw [signed, signed]
  split
  · exact (Number.neg_mul hx hy).symm
  · rfl

theorem valueOrKind_bind {α : Type} {m : Except EvalError α} {f g : α → Except EvalError Float}
    (h : ∀ a, m = .ok a → valueOrKind (f a) = valueOrKind (g a)) :
    valueOrKind (m >>= f) = valueOrKind (m >>= g) := by
  cases m with
  | error cause => rfl
  | ok a => exact h a rfl

end Calculator
