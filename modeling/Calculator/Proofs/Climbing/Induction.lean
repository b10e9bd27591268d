import Calculator.Proofs.Climbing.Folding

/-!
# Induction on reading

A statement about reading holds for all items if it holds for each call whenever it holds for the
calls that this one makes. A proof by this principle has one case for each way in which a call goes
on, and never speaks of weights.

## Which calls are made

A group is an operand and an expression behind it. An expression takes one operator at a time: the
right operand is an operand with an expression of tighter priorities, and what is left behind the
combination is an expression of the same priority again. Everything but the operand of a group is
called on lighter items.
-/

namespace Calculator

namespace Climbing

/-- An operation is an operand with the tighter operators behind it, and a combination. -/
theorem readOperation_eq_readFrom (x : Float) (p : Nat) (run : Char × List Item) :
    readOperation x p run = (do
      let (y, items) ← readFrom (tighter p) run.2
      let z ← (Computation.combination x run.1 y).value
      return (z, items)) := by
  obtain ⟨symbol, _ | ⟨item, items⟩⟩ := run
  · rfl
  · exact readOperation_eq (List.cons_ne_nil _ _) x p symbol

/-! ## The principle -/

/-- An item at which no operand can begin. -/
def Item.BeginsNoOperand (item : Item) : Prop :=
  item = .closing ∨ ∃ symbol, symbol ≠ '-' ∧ item = .operator symbol

/-- The cases of an induction on reading: a statement about operands, groups and expressions holds
for each call if it holds for the calls that this one makes. -/
structure ReadingCases (operand group : List Item → Prop)
    (expression : Float → Nat → List Item → Prop) : Prop where
  groupNil : group []
  groupClosing (items : List Item) : group (.closing :: items)
  groupCons (item : Item) (items : List Item) : item ≠ .closing → operand (item :: items) →
    (∀ x left, readOperand (item :: items) = .ok (x, left) → expression x 1 left) →
    group (item :: items)
  operandNil : operand []
  number (x : Float) (items : List Item) : operand (.number x :: items)
  opening (items : List Item) : group items → operand (.opening :: items)
  application (name : String) (items : List Item) : group items →
    operand (.function name :: .opening :: items)
  noArgument (name : String) (items : List Item) : (∀ rest, items ≠ .opening :: rest) →
    operand (.function name :: items)
  minus (items : List Item) : operand (.operator '-' :: items)
  missing (item : Item) (items : List Item) : item.BeginsNoOperand → operand (item :: items)
  expressionEnd (x : Float) (least : Nat) (items : List Item) :
    (∀ p, leading items = some p → p < least) → expression x least items
  expressionOperator (x : Float) (least : Nat) (symbol : Char) (p : Nat) (rest : List Item) :
    priority symbol = some p → least ≤ p → operand (binaryOperator symbol rest).2 →
    (∀ y left, readOperand (binaryOperator symbol rest).2 = .ok (y, left) →
      expression y (tighter p) left) →
    (∀ z left, readOperation x p (binaryOperator symbol rest) = .ok (z, left) →
      expression z least left) →
    expression x least (.operator symbol :: rest)

namespace ReadingCases

variable {operand group : List Item → Prop} {expression : Float → Nat → List Item → Prop}
  {items : List Item} (h : ReadingCases operand group expression)
include h

/-- A group needs its operand at the same weight, so it is not a part of the induction. -/
private theorem group_of_operand (hoperand : operand items)
    (hexpression : ∀ x left, weight left < weight items → expression x 1 left) : group items := by
  cases items with
  | nil => exact h.groupNil
  | cons item items =>
    by_cases hitem : item = .closing
    · subst hitem
      exact h.groupClosing items
    · exact h.groupCons item items hitem hoperand fun x left hread ↦
        hexpression x left (weight_lt_of_readOperand hread)

private theorem operand_of_inner (hinner : ∀ inner, weight inner < weight items → group inner) :
    operand items := by
  cases items with
  | nil => exact h.operandNil
  | cons item rest =>
    have hitem := item.weight_pos
    rw [weight_cons] at hinner
    cases item with
    | number x => exact h.number x rest
    | opening => exact h.opening rest (hinner rest (by omega))
    | closing => exact h.missing _ rest (.inl rfl)
    | function name =>
      by_cases hopening : ∃ inner, rest = .opening :: inner
      · obtain ⟨inner, rfl⟩ := hopening
        rw [weight_cons] at hinner
        exact h.application name inner (hinner inner (by omega))
      · exact h.noArgument name rest fun inner heq ↦ hopening ⟨inner, heq⟩
    | operator symbol =>
      by_cases hsymbol : symbol = '-'
      · subst hsymbol
        exact h.minus rest
      · exact h.missing _ rest (.inr ⟨symbol, hsymbol, rfl⟩)

private theorem expression_of_lighter
    (hlighter : ∀ lighter, weight lighter < weight items →
      operand lighter ∧ ∀ x least, expression x least lighter) (x : Float) (least : Nat) :
    expression x least items := by
  by_cases hnext : ∃ p, leading items = some p ∧ least ≤ p
  · obtain ⟨p, hp, hleast⟩ := hnext
    obtain ⟨symbol, rest, rfl, hpriority⟩ := exists_of_leading hp
    have hitem := (Item.operator symbol).weight_pos
    have hrun := weight_binaryOperator symbol rest
    rw [weight_cons] at hlighter
    refine h.expressionOperator x least symbol p rest hpriority hleast
      (hlighter _ (by omega)).1 (fun y left hread ↦ ?_) fun z left hread ↦ ?_
    · have hlt := weight_lt_of_readOperand hread
      exact (hlighter left (by omega)).2 y _
    · have hlt := weight_lt_of_readOperation hread
      exact (hlighter left (by omega)).2 z _
  · exact h.expressionEnd x least items fun p hp ↦
      Nat.lt_of_not_le fun hle ↦ hnext ⟨p, hp, hle⟩

private theorem operand_and_expression (items : List Item) :
    operand items ∧ ∀ x least, expression x least items := by
  induction hweight : weight items using Nat.strongRecOn generalizing items with
  | _ n ih =>
    have hlighter : ∀ lighter, weight lighter < weight items →
        operand lighter ∧ ∀ x least, expression x least lighter := fun lighter hlt ↦
      ih (weight lighter) (hweight ▸ hlt) lighter rfl
    refine ⟨h.operand_of_inner fun inner hinner ↦ ?_, h.expression_of_lighter hlighter⟩
    exact h.group_of_operand (hlighter inner hinner).1 fun x left hleft ↦
      (hlighter left (Nat.lt_trans hleft hinner)).2 x 1

end ReadingCases

/-- **Induction on reading.** -/
theorem reading_induction (operand group : List Item → Prop)
    (expression : Float → Nat → List Item → Prop) (h : ReadingCases operand group expression) :
    (∀ items, operand items) ∧ (∀ items, group items) ∧
      ∀ x least items, expression x least items := by
  refine ⟨fun items ↦ (h.operand_and_expression items).1, fun items ↦ ?_, fun x least items ↦
    (h.operand_and_expression items).2 x least⟩
  exact h.group_of_operand (h.operand_and_expression items).1 fun x left _ ↦
    (h.operand_and_expression left).2 x 1

/-! ## Where an expression ends -/

/-- An expression of some least priority ends in front of no operator of that priority or above. -/
theorem lt_of_leading_of_readExpression {x y : Float} {least p : Nat} {items left : List Item}
    (h : readExpression x least items = .ok (y, left)) (hp : leading left = some p) :
    p < least := by
  induction hweight : weight items using Nat.strongRecOn generalizing x items with
  | _ n ih =>
    by_cases hnext : ∃ q, leading items = some q ∧ least ≤ q
    · obtain ⟨q, hq, hleast⟩ := hnext
      obtain ⟨symbol, rest, rfl, hpriority⟩ := exists_of_leading hq
      rw [readExpression_operator hpriority hleast] at h
      cases hfold : readOperation x q (binaryOperator symbol rest) with
      | error cause => rw [hfold] at h; cases h
      | ok answer =>
        have hlt := weight_lt_of_readOperation hfold
        have hrun := weight_binaryOperator symbol rest
        rw [hfold] at h
        rw [weight_cons] at hweight
        exact ih _ (by omega) h rfl
    · rw [readExpression_end] at h
      · cases h
        exact Nat.lt_of_not_le fun hle ↦ hnext ⟨p, hp, hle⟩
      · intro q hq
        exact Nat.lt_of_not_le fun hle ↦ hnext ⟨q, hq, hle⟩

/-- The content of a group is read up to an item that is no operator. -/
theorem leading_ne_some_of_readFrom {x : Float} {items left : List Item}
    (h : readFrom 1 items = .ok (x, left)) (p : Nat) : leading left ≠ some p := by
  intro hp
  rw [readFrom] at h
  cases hread : readOperand items with
  | error cause =>
    rw [hread] at h
    cases h
  | ok answer =>
    rw [hread] at h
    have hlt := lt_of_leading_of_readExpression h hp
    obtain ⟨symbol, rest, rfl, hpriority⟩ := exists_of_leading hp
    obtain ⟨o, -, ho⟩ := Option.map_eq_some_iff.mp hpriority
    have hpos := o.one_le_priority
    omega

end Climbing

end Calculator
