import Calculator.Proofs.Climbing.Folding

/-!
# Items that read as a value

What it is for some items to have a value of their own inside an expression, whatever stands around
them, and how such items are put together. Nothing here asks where the items come from; trees and
signed operands are both built from these rules.

## What may stand behind

Items whose outermost operator has some priority keep their value if what follows does not take the
last operand away. Items without such an operator, such as a number or a group, keep it always. But
something must follow: inside a whole expression that is a closing parenthesis at the least, and
without one the error for a missing operand would name the end of input instead of the parenthesis.
-/

namespace Calculator

namespace Climbing

/-- Whether an operand without a sign can begin with an item. -/
def Item.beginsPrimary : Item → Bool
  | number _ | opening | function _ => true
  | operator _ | closing => false

/-- Whether an operator of priority `outer?` leaves its right operand alone when what follows begins
with one of priority `next?`. -/
def Leaves (outer? next? : Option Nat) : Prop :=
  ∀ p q, outer? = some p → next? = some q → ¬ takesFrom p q

/-- The items have the given value wherever operators of their outermost priority are read. -/
structure ReadsAs (items : List Item) (outer? : Option Nat) (value : Except EvalError Float) :
    Prop where
  begins : ∃ item rest, items = item :: rest ∧ item.beginsPrimary
  reads : ∀ least rest, rest ≠ [] → (∀ p, outer? = some p → least ≤ p) →
    Leaves outer? (leading rest) →
    readFrom least (items ++ rest) = value >>= fun x ↦ readExpression x least rest

variable {items left right : List Item} {outer? leftOuter? rightOuter? next? : Option Nat}
  {value leftValue rightValue : Except EvalError Float}

theorem Leaves.inside : Leaves none next? := fun _ _ houter _ ↦ by cases houter

theorem Leaves.atEnd : Leaves outer? none := fun _ _ _ hnext ↦ by cases hnext

/-- Nothing is folded into a number before a closing parenthesis. -/
theorem readExpression_closing (x : Float) (least : Nat) (rest : List Item) :
    readExpression x least (.closing :: rest) = .ok (x, .closing :: rest) :=
  readExpression_end (by rintro _ ⟨⟩) x

theorem binaryOperator_of_beginsPrimary {item : Item} (hitem : item.beginsPrimary) (symbol : Char)
    (rest : List Item) : binaryOperator symbol (item :: rest) = (symbol, item :: rest) := by
  rw [binaryOperator]
  split
  · next hsymbol =>
    cases item with
    | operator symbol => cases hitem
    | _ => rw [hsymbol]; rfl
  · rfl

theorem ne_closing_of_beginsPrimary {item : Item} (hitem : item.beginsPrimary) :
    item ≠ .closing := by
  rintro rfl
  cases hitem

namespace ReadsAs

theorem number (x : Float) : ReadsAs [.number x] none (.ok x) where
  begins := ⟨_, _, rfl, rfl⟩
  reads least rest _ _ _ := by
    rw [readFrom, List.singleton_append, readOperand_number]
    rfl

/-- The value of a group is that of the items in it. -/
theorem readGroup (h : ReadsAs items outer? value) (houter : ∀ p, outer? = some p → 1 ≤ p)
    (rest : List Item) :
    readGroup (items ++ .closing :: rest) = value >>= fun x ↦ .ok (x, rest) := by
  have hread := h.reads 1 (.closing :: rest) (List.cons_ne_nil _ _) houter .atEnd
  obtain ⟨item, later, rfl, hitem⟩ := h.begins
  rw [List.cons_append] at hread ⊢
  rw [readGroup_cons (ne_closing_of_beginsPrimary hitem), hread, bind_assoc]
  refine bind_congr_ok fun x _ ↦ ?_
  rw [readExpression_closing]
  rfl

/-- A group reads as its content, whatever stands behind its parentheses. -/
theorem ofGroup (hgroup : ∀ rest, rest ≠ [] →
    Climbing.readGroup (items ++ .closing :: rest) = value >>= fun x ↦ .ok (x, rest)) :
    ReadsAs (.opening :: items ++ [.closing]) none value where
  begins := ⟨_, _, rfl, rfl⟩
  reads least rest hrest _ _ := by
    have hitems : Item.opening :: items ++ [.closing] ++ rest
        = .opening :: (items ++ .closing :: rest) := by simp
    rw [readFrom, hitems, readOperand_opening, hgroup rest hrest, bind_assoc]
    rfl

theorem ofArgument (name : String) (hgroup : ∀ rest, rest ≠ [] →
    Climbing.readGroup (items ++ .closing :: rest) = value >>= fun x ↦ .ok (x, rest)) :
    ReadsAs (.function name :: .opening :: items ++ [.closing]) none
      (do
        let x ← value
        (Computation.application name x).value) where
  begins := ⟨_, _, rfl, rfl⟩
  reads least rest hrest _ _ := by
    have hitems : Item.function name :: .opening :: items ++ [.closing] ++ rest
        = .function name :: .opening :: (items ++ .closing :: rest) := by simp
    rw [readFrom, hitems, readOperand_function, hgroup rest hrest]
    simp only [bind_assoc]
    rfl

theorem enclosed (h : ReadsAs items outer? value) (houter : ∀ p, outer? = some p → 1 ≤ p) :
    ReadsAs (.opening :: items ++ [.closing]) none value :=
  .ofGroup fun rest _ ↦ h.readGroup houter rest

theorem application (name : String) (h : ReadsAs items outer? value)
    (houter : ∀ p, outer? = some p → 1 ≤ p) :
    ReadsAs (.function name :: .opening :: items ++ [.closing]) none
      (do
        let x ← value
        (Computation.application name x).value) :=
  .ofArgument name fun rest _ ↦ h.readGroup houter rest

/-- An operator and its right operand behind a number. -/
theorem readExpression {p : Nat} {symbol : Char} (hright : ReadsAs right rightOuter? rightValue)
    (hp : priority symbol = some p) (htight : ∀ q, rightOuter? = some q → tighter p ≤ q)
    {least : Nat} (hleast : least ≤ p) {rest : List Item} (hnonempty : rest ≠ [])
    (hrest : Leaves (some p) (leading rest)) (x : Float) :
    readExpression x least (.operator symbol :: (right ++ rest)) = (do
      let y ← rightValue
      let z ← (Computation.combination x symbol y).value
      Climbing.readExpression z least rest) := by
  obtain ⟨item, later, rfl, hitem⟩ := hright.begins
  -- What comes next takes the right operand neither from `symbol` nor from the operand's own
  -- operators, which bind at least as tightly.
  have hend : ∀ y, Climbing.readExpression y (tighter p) rest = .ok (y, rest) :=
    readExpression_end fun q hq ↦ Nat.lt_of_not_le fun hle ↦
      hrest p q rfl hq (takesFrom_iff.mpr hle)
  have hleaves : Leaves rightOuter? (leading rest) := by
    intro r q hr hq htakes
    have hle := Nat.le_trans (le_tighter r) (takesFrom_iff.mp htakes)
    exact hrest p q rfl hq (takesFrom_iff.mpr (Nat.le_trans (htight r hr) hle))
  have hread := hright.reads (tighter p) rest hnonempty htight hleaves
  rw [readExpression_operator hp hleast, List.cons_append, binaryOperator_of_beginsPrimary hitem,
    readOperation_eq (List.cons_ne_nil _ _), ← List.cons_append, hread]
  simp only [hend, bind_assoc]
  rfl

theorem combination {p : Nat} {symbol : Char} (hleft : ReadsAs left leftOuter? leftValue)
    (hright : ReadsAs right rightOuter? rightValue) (hp : priority symbol = some p)
    (hloose : ∀ q, leftOuter? = some q → p ≤ q) (hleaves : Leaves leftOuter? (some p))
    (htight : ∀ q, rightOuter? = some q → tighter p ≤ q) :
    ReadsAs (left ++ .operator symbol :: right) (some p)
      (do
        let x ← leftValue
        let y ← rightValue
        (Computation.combination x symbol y).value) where
  begins := by
    obtain ⟨item, rest, rfl, hitem⟩ := hleft.begins
    exact ⟨item, _, rfl, hitem⟩
  reads least rest hnonempty houter hrest := by
    have hleast := houter p rfl
    have hnext : leading (.operator symbol :: (right ++ rest)) = some p := hp
    have hread := hleft.reads least (.operator symbol :: (right ++ rest))
      (List.cons_ne_nil _ _) (fun q hq ↦ Nat.le_trans hleast (hloose q hq)) (by rwa [hnext])
    rw [List.append_assoc, List.cons_append, hread]
    simp only [bind_assoc]
    refine bind_congr_ok fun x _ ↦ ?_
    exact hright.readExpression hp htight hleast hnonempty hrest x

end ReadsAs

end Climbing

end Calculator
