import Calculator.Proofs.Climbing.Induction

/-!
# Items that are read alike

Two lists of items can differ in ways that reading never shows: the values are the same, and so are
the errors with all their data. A relation between items is a congruence if related items begin
alike, as far as one call looks at them, and what the call leaves to the next is related again. From
that single step it follows that all readings of related items agree.

## Two relations in one

Whether an operand has just ended changes what the next item means, as with a minus sign, so a
congruence is a relation for each of the two places.
-/

namespace Calculator

namespace Climbing

/-- Whether an operand can end with an item. -/
def Item.endsOperand : Item → Bool
  | number _ | closing => true
  | operator _ | function _ | opening => false

/-! ## Answers that agree -/

/-- The same error, or the same number in front of related items. -/
inductive Alike (related : List Item → List Item → Prop) :
    Except EvalError (Float × List Item) → Except EvalError (Float × List Item) → Prop where
  | error (cause : EvalError) : Alike related (.error cause) (.error cause)
  | ok (x : Float) {left left' : List Item} :
      related left left' → Alike related (.ok (x, left)) (.ok (x, left'))

theorem Alike.bind {related later : List Item → List Item → Prop}
    {r r' : Except EvalError (Float × List Item)}
    {k k' : Float × List Item → Except EvalError (Float × List Item)} (h : Alike related r r')
    (hk : ∀ x left left', r = .ok (x, left) → related left left' →
      Alike later (k (x, left)) (k' (x, left'))) :
    Alike later (r >>= k) (r' >>= k') := by
  cases h with
  | error cause => exact .error cause
  | ok x hleft => exact hk x _ _ rfl hleft

/-- Answers that agree have the same value. -/
theorem Alike.value_eq {related : List Item → List Item → Prop}
    {r r' : Except EvalError (Float × List Item)} (h : Alike related r r') :
    (do let (x, _) ← r; return x : Except EvalError Float) = do let (x, _) ← r'; return x := by
  cases h with
  | error cause => rfl
  | ok x => rfl

/-! ## One step -/

variable {related : (ended : Bool) → List Item → List Item → Prop}

private theorem leading_cons (item : Item) (rest : List Item) :
    leading (item :: rest) = leading [item] := by
  cases item <;> rfl

/-- How related items begin where an operand is awaited. -/
inductive OperandsBegin (related : (ended : Bool) → List Item → List Item → Prop) :
    List Item → List Item → Prop where
  | nil : OperandsBegin related [] []
  | cons {item : Item} {rest rest' : List Item} : item ≠ .operator '-' →
      related item.endsOperand rest rest' → OperandsBegin related (item :: rest) (item :: rest')
  /-- Groups whose contents differ but have the same value. -/
  | group {inner inner' : List Item} : Alike (related true) (readGroup inner) (readGroup inner') →
      OperandsBegin related (.opening :: inner) (.opening :: inner')
  | minus {item : Item} {rest rest' : List Item} : item ≠ .opening → item ≠ .closing →
      Alike (related true) (readOperand (.operator '-' :: rest)) (readOperand (item :: rest')) →
      OperandsBegin related (.operator '-' :: rest) (item :: rest')

/-- How related items begin where an operand has just ended. -/
inductive OperatorsBegin (related : (ended : Bool) → List Item → List Item → Prop) :
    List Item → List Item → Prop where
  | nil : OperatorsBegin related [] []
  | closing {rest rest' : List Item} : related true rest rest' →
      OperatorsBegin related (.closing :: rest) (.closing :: rest')
  | operator {symbol symbol' : Char} {p : Nat} {rest rest' : List Item} :
      priority symbol = some p → priority symbol' = some p →
      (binaryOperator symbol rest).1 = (binaryOperator symbol' rest').1 →
      related false (binaryOperator symbol rest).2 (binaryOperator symbol' rest').2 →
      OperatorsBegin related (.operator symbol :: rest) (.operator symbol' :: rest')
  /-- Nothing is read behind an item that neither is an operator nor closes the group. -/
  | stop {item : Item} {rest rest' : List Item} : item ≠ .closing → leading [item] = none →
      OperatorsBegin related (item :: rest) (item :: rest')

/-- The same item in front, where an operator must be followed alike behind its run of signs. -/
theorem OperatorsBegin.cons {item : Item} {rest rest' : List Item}
    (hrest : related item.endsOperand rest rest')
    (hoperator : ∀ symbol, item = .operator symbol →
      (binaryOperator symbol rest).1 = (binaryOperator symbol rest').1 ∧
        related false (binaryOperator symbol rest).2 (binaryOperator symbol rest').2) :
    OperatorsBegin related (item :: rest) (item :: rest') := by
  cases item with
  | closing => exact .closing hrest
  | operator symbol =>
    cases hp : priority symbol with
    | none => exact .stop (by rintro ⟨⟩) hp
    | some p =>
      obtain ⟨hsymbol, hbehind⟩ := hoperator symbol rfl
      exact .operator hp hp hsymbol hbehind
  | _ => exact .stop (by rintro ⟨⟩) rfl

/-- A relation between items that no call tells apart. -/
structure IsCongruence (related : (ended : Bool) → List Item → List Item → Prop) : Prop where
  operands {items items' : List Item} :
    related false items items' → OperandsBegin related items items'
  operators {items items' : List Item} :
    related true items items' → OperatorsBegin related items items'

/-! ## One call -/

/-- Related items are alike as operands. -/
def OperandAlike (related : (ended : Bool) → List Item → List Item → Prop)
    (items : List Item) : Prop :=
  ∀ items', related false items items' →
    Alike (related true) (readOperand items) (readOperand items')

/-- Related items are alike as groups. -/
def GroupAlike (related : (ended : Bool) → List Item → List Item → Prop)
    (items : List Item) : Prop :=
  ∀ items', related false items items' → Alike (related true) (readGroup items) (readGroup items')

/-- Related items are alike as what an expression reads behind its first operand. -/
def ExpressionAlike (related : (ended : Bool) → List Item → List Item → Prop) (x : Float)
    (least : Nat) (items : List Item) : Prop :=
  ∀ items', related true items items' →
    Alike (related true) (readExpression x least items) (readExpression x least items')

namespace IsCongruence

variable {items rest : List Item} {item : Item} (hrelated : IsCongruence related)
include hrelated

private theorem nil_iff {ended : Bool} {items items' : List Item} (h : related ended items items') :
    items = [] ↔ items' = [] := by
  cases ended with
  | false => cases hrelated.operands h <;> simp
  | true => cases hrelated.operators h <;> simp

/-- Groups that begin where an operand is awaited have the same value. -/
private theorem readGroup_of_opening {inner items' : List Item}
    (h : related false (.opening :: inner) items') (hinner : GroupAlike related inner) :
    ∃ inner', items' = .opening :: inner' ∧
      Alike (related true) (readGroup inner) (readGroup inner') := by
  cases hrelated.operands h with
  | cons _ hrest => exact ⟨_, rfl, hinner _ hrest⟩
  | group hgroup => exact ⟨_, rfl, hgroup⟩

private theorem alike_closeGroup {y : Float} {left left' : List Item} (h : related true left left')
    (hleft : ∀ p, leading left ≠ some p) :
    Alike (related true) (closeGroup (y, left)) (closeGroup (y, left')) := by
  cases hrelated.operators h with
  | nil => exact .error _
  | closing hrest => exact .ok y hrest
  | operator hp => exact absurd hp (hleft _)
  | @stop item _ _ hitem _ =>
    cases item with
    | closing => exact absurd rfl hitem
    | _ => exact .error _

omit hrelated in
private theorem alike_readFrom {least : Nat} {items' : List Item} (h : related false items items')
    (hoperand : OperandAlike related items)
    (hexpression : ∀ x left, readOperand items = .ok (x, left) →
      ExpressionAlike related x least left) :
    Alike (related true) (readFrom least items) (readFrom least items') := by
  rw [readFrom, readFrom]
  exact (hoperand _ h).bind fun x left left' hread hleft ↦ hexpression x left hread left' hleft

omit hrelated in
private theorem alike_readOperation {symbol symbol' : Char} {rest rest' : List Item} (x : Float)
    (p : Nat) (hsymbol : (binaryOperator symbol rest).1 = (binaryOperator symbol' rest').1)
    (hfrom : Alike (related true) (readFrom (tighter p) (binaryOperator symbol rest).2)
      (readFrom (tighter p) (binaryOperator symbol' rest').2)) :
    Alike (related true) (readOperation x p (binaryOperator symbol rest))
      (readOperation x p (binaryOperator symbol' rest')) := by
  rw [readOperation_eq_readFrom, readOperation_eq_readFrom, hsymbol]
  refine hfrom.bind fun y left left' _ hleft ↦ ?_
  dsimp only
  cases (Computation.combination x (binaryOperator symbol' rest').1 y).value with
  | ok z => exact .ok z hleft
  | error cause => exact .error cause

private theorem groupAlike_cons (hitem : item ≠ .closing)
    (hoperand : OperandAlike related (item :: items))
    (hexpression : ∀ x left, readOperand (item :: items) = .ok (x, left) →
      ExpressionAlike related x 1 left) :
    GroupAlike related (item :: items) := by
  intro items' h
  -- The other group is not empty either.
  have hcons : ∃ item' rest', items' = item' :: rest' ∧ item' ≠ .closing := by
    cases hrelated.operands h with
    | cons => exact ⟨_, _, rfl, hitem⟩
    | group => exact ⟨_, _, rfl, hitem⟩
    | minus _ hclosing => exact ⟨_, _, rfl, hclosing⟩
  obtain ⟨item', rest', rfl, hitem'⟩ := hcons
  rw [readGroup_cons hitem, readGroup_cons hitem']
  have hfrom := alike_readFrom h hoperand hexpression
  exact hfrom.bind fun y left left' hread hleft ↦
    hrelated.alike_closeGroup hleft (leading_ne_some_of_readFrom hread)

private theorem operandAlike_opening (hgroup : GroupAlike related items) :
    OperandAlike related (.opening :: items) := by
  intro items' h
  obtain ⟨inner', rfl, hinner⟩ := hrelated.readGroup_of_opening h hgroup
  rwa [readOperand_opening, readOperand_opening]

private theorem operandAlike_application (name : String) (hgroup : GroupAlike related items) :
    OperandAlike related (.function name :: .opening :: items) := by
  intro items' h
  cases hrelated.operands h with
  | cons _ hrest =>
    obtain ⟨inner', rfl, hinner⟩ := hrelated.readGroup_of_opening hrest hgroup
    rw [readOperand_function, readOperand_function]
    refine hinner.bind fun x left left' _ hleft ↦ ?_
    dsimp only
    cases (Computation.application name x).value with
    | ok y => exact .ok y hleft
    | error cause => exact .error cause

private theorem operandAlike_noArgument (name : String)
    (hitems : ∀ rest, items ≠ .opening :: rest) :
    OperandAlike related (.function name :: items) := by
  intro items' h
  cases hrelated.operands h with
  | @cons _ _ rest' _ hrest =>
    have hrest' : ∀ inner', rest' ≠ .opening :: inner' := by
      rintro inner' rfl
      cases hrelated.operands hrest with
      | cons => exact hitems _ rfl
      | group => exact hitems _ rfl
      | minus hopening => exact hopening rfl
    rw [readOperand_missingArgument name hitems, readOperand_missingArgument name hrest']
    exact .error _

private theorem operandAlike_missing (hitem : item.BeginsNoOperand) :
    OperandAlike related (item :: items) := by
  intro items' h
  have hrest : ∃ rest', items' = item :: rest' ∧ (items = [] ↔ rest' = []) := by
    cases hrelated.operands h with
    | cons _ hrest => exact ⟨_, rfl, hrelated.nil_iff hrest⟩
    | group =>
      rcases hitem with hitem | ⟨_, _, hitem⟩ <;> cases hitem
    | minus =>
      rcases hitem with hitem | ⟨_, hsymbol, hitem⟩
      · cases hitem
      · cases hitem
        exact absurd rfl hsymbol
  obtain ⟨rest', rfl, hnil⟩ := hrest
  rw [readOperand_missing hitem, readOperand_missing hitem]
  simp only [hnil]
  exact .error _

private theorem expressionAlike_end {least : Nat} (hend : ∀ p, leading items = some p → p < least)
    (x : Float) : ExpressionAlike related x least items := by
  intro items' h
  have hend' : ∀ p, leading items' = some p → p < least := by
    intro p hp
    cases hrelated.operators h with
    | nil => cases hp
    | closing => cases hp
    | operator hq hq' =>
      refine hend p (hq.trans ?_)
      rw [← hq', ← hp, leading]
    | stop _ hstop =>
      rw [leading_cons, hstop] at hp
      cases hp
  rw [readExpression_end hend, readExpression_end hend']
  exact .ok x h

private theorem expressionAlike_operator {x : Float} {least p : Nat} {symbol : Char}
    (hp : priority symbol = some p) (hleast : least ≤ p)
    (hoperand : OperandAlike related (binaryOperator symbol rest).2)
    (hexpression : ∀ y left, readOperand (binaryOperator symbol rest).2 = .ok (y, left) →
      ExpressionAlike related y (tighter p) left)
    (hlater : ∀ z left, readOperation x p (binaryOperator symbol rest) = .ok (z, left) →
      ExpressionAlike related z least left) :
    ExpressionAlike related x least (.operator symbol :: rest) := by
  intro items' h
  cases hrelated.operators h with
  | operator hq hq' hsymbol hrest =>
    rw [hp] at hq
    cases hq
    rw [readExpression_operator hp hleast, readExpression_operator hq' hleast]
    have hfrom := alike_readFrom hrest hoperand hexpression
    exact (alike_readOperation x p hsymbol hfrom).bind fun z left left' hread hleft ↦
      hlater z left hread left' hleft
  | stop _ hstop =>
    rw [leading, hp] at hstop
    cases hstop

/-- **Related items are read alike.** -/
theorem alike_reading :
    (∀ items, OperandAlike related items) ∧ (∀ items, GroupAlike related items) ∧
      ∀ x least items, ExpressionAlike related x least items := by
  apply reading_induction (OperandAlike related) (GroupAlike related) (ExpressionAlike related)
  constructor
  case groupNil =>
    intro items' h
    cases hrelated.operands h
    exact .error _
  case groupClosing =>
    intro items items' h
    cases hrelated.operands h
    exact .error _
  case groupCons => exact fun item items ↦ hrelated.groupAlike_cons
  case operandNil =>
    intro items' h
    cases hrelated.operands h
    exact .error _
  case number =>
    intro x items items' h
    cases hrelated.operands h with
    | cons _ hrest => exact .ok x hrest
  case opening => exact fun items ↦ hrelated.operandAlike_opening
  case application => exact fun name items ↦ hrelated.operandAlike_application name
  case noArgument => exact fun name items ↦ hrelated.operandAlike_noArgument name
  case minus =>
    intro items items' h
    cases hrelated.operands h with
    | cons hitem => exact absurd rfl hitem
    | minus _ _ halike => exact halike
  case missing => exact fun item items ↦ hrelated.operandAlike_missing
  case expressionEnd => exact fun x least items hend ↦ hrelated.expressionAlike_end hend x
  case expressionOperator =>
    exact fun x least symbol p rest ↦ hrelated.expressionAlike_operator

end IsCongruence

end Climbing

end Calculator
