import Calculator.Proofs.Climbing.Induction

/-!
# More items behind

What is read as a value is read as the same value in front of more items, which are then left too.
Errors need not stay the same: a missing operand is the end of input only where no item follows.

An expression is read up to the item that ends it, and without such an item it could go on into what
is put behind. So for expressions something must be left.
-/

namespace Calculator

namespace Climbing

variable {items left : List Item}

/-! ## Operators and signs -/

private theorem leading_append (hitems : items ≠ []) (more : List Item) :
    leading (items ++ more) = leading items := by
  obtain ⟨item, rest, rfl⟩ := List.exists_cons_of_ne_nil hitems
  cases item <;> rfl

private theorem minusRun_append_more {odd : Bool} (hrun : (minusRun odd items).2 ≠ [])
    (more : List Item) :
    minusRun odd (items ++ more) = ((minusRun odd items).1, (minusRun odd items).2 ++ more) := by
  fun_induction minusRun odd items with
  | case1 odd items ih =>
    rw [List.cons_append, minusRun]
    exact ih hrun
  | case2 odd items hitems =>
    obtain ⟨item, rest, rfl⟩ := List.exists_cons_of_ne_nil hrun
    rw [List.cons_append, minusRun]
    rintro later ⟨⟩
    exact hitems _ rfl

private theorem binaryOperator_append_more {symbol : Char}
    (hrun : (binaryOperator symbol items).2 ≠ []) (more : List Item) :
    binaryOperator symbol (items ++ more)
      = ((binaryOperator symbol items).1, (binaryOperator symbol items).2 ++ more) := by
  rw [binaryOperator] at hrun ⊢
  rw [binaryOperator]
  split
  · next hsymbol =>
    rw [if_pos hsymbol] at hrun
    rw [minusRun_append_more hrun]
  · rfl

/-! ## Answers -/

/-- A value stays the same in front of more items. -/
def Extends (items : List Item) (read : List Item → Except EvalError (Float × List Item)) : Prop :=
  ∀ x left, read items = .ok (x, left) → ∀ more, read (items ++ more) = .ok (x, left ++ more)

/-- A value that leaves items stays the same in front of more. -/
def ExtendsLeaving (items : List Item)
    (read : List Item → Except EvalError (Float × List Item)) : Prop :=
  ∀ x left, left ≠ [] → read items = .ok (x, left) →
    ∀ more, read (items ++ more) = .ok (x, left ++ more)

private theorem exists_of_bind_eq_ok {α β : Type} {m : Except EvalError α}
    {f : α → Except EvalError β} {b : β} (h : m >>= f = .ok b) : ∃ a, m = .ok a ∧ f a = .ok b := by
  cases m with
  | error cause => cases h
  | ok a => exact ⟨a, rfl, h⟩

private theorem extends_readFrom {least : Nat} (hoperand : Extends items readOperand)
    (hexpression : ∀ x left, readOperand items = .ok (x, left) →
      ExtendsLeaving left (readExpression x least)) :
    ExtendsLeaving items (readFrom least) := by
  intro y left hleft h more
  rw [readFrom] at h ⊢
  obtain ⟨⟨x, middle⟩, hx, hy⟩ := exists_of_bind_eq_ok h
  rw [hoperand x middle hx more, ok_bind]
  exact hexpression x middle hx y left hleft hy more

private theorem extends_readOperation {x z : Float} {p : Nat} {symbol : Char}
    (hfrom : ExtendsLeaving (binaryOperator symbol items).2 (readFrom (tighter p)))
    (hleft : left ≠ []) (h : readOperation x p (binaryOperator symbol items) = .ok (z, left))
    (more : List Item) :
    readOperation x p (binaryOperator symbol (items ++ more)) = .ok (z, left ++ more) := by
  have hrun : (binaryOperator symbol items).2 ≠ [] := by
    intro hnil
    rw [readOperation_eq_readFrom, hnil] at h
    cases h
  rw [binaryOperator_append_more hrun]
  rw [readOperation_eq_readFrom] at h ⊢
  obtain ⟨⟨y, middle⟩, hy, hz⟩ := exists_of_bind_eq_ok h
  obtain ⟨z', hvalue, ⟨⟩⟩ := exists_of_bind_eq_ok hz
  dsimp only at hvalue ⊢
  rw [hfrom y left hleft hy more, ok_bind]
  dsimp only
  rw [hvalue]
  rfl

/-! ## One call -/

/-- A group that is closed leaves what is behind its closing parenthesis. -/
private theorem eq_of_closeGroup_eq_ok {x y : Float} {middle : List Item}
    (h : closeGroup (y, middle) = .ok (x, left)) : y = x ∧ middle = .closing :: left := by
  cases middle with
  | nil => cases h
  | cons item middle =>
    cases item with
    | closing =>
      cases h
      exact ⟨rfl, rfl⟩
    | _ => cases h

private theorem extends_groupCons {item : Item} (hitem : item ≠ .closing)
    (hoperand : Extends (item :: items) readOperand)
    (hexpression : ∀ x left, readOperand (item :: items) = .ok (x, left) →
      ExtendsLeaving left (readExpression x 1)) :
    Extends (item :: items) readGroup := by
  intro x left h more
  rw [readGroup_cons hitem] at h
  rw [List.cons_append, readGroup_cons hitem, ← List.cons_append]
  obtain ⟨⟨y, middle⟩, hy, hclose⟩ := exists_of_bind_eq_ok h
  -- The closing parenthesis is left, so the content may be put in front of more.
  obtain ⟨rfl, rfl⟩ := eq_of_closeGroup_eq_ok hclose
  rw [extends_readFrom hoperand hexpression y _ (List.cons_ne_nil _ _) hy more]
  rfl

private theorem extends_opening (hgroup : Extends items readGroup) :
    Extends (.opening :: items) readOperand := by
  intro x left h more
  rw [readOperand_opening] at h
  rw [List.cons_append, readOperand_opening]
  exact hgroup x left h more

private theorem extends_application (name : String) (hgroup : Extends items readGroup) :
    Extends (.function name :: .opening :: items) readOperand := by
  intro y left h more
  rw [readOperand_function] at h
  obtain ⟨⟨x, middle⟩, hx, hy⟩ := exists_of_bind_eq_ok h
  obtain ⟨y', hvalue, ⟨⟩⟩ := exists_of_bind_eq_ok hy
  rw [List.cons_append, List.cons_append, readOperand_function, hgroup x left hx more, ok_bind]
  dsimp only at hvalue ⊢
  rw [hvalue]
  rfl

private theorem extends_minus (items : List Item) :
    Extends (.operator '-' :: items) readOperand := by
  intro x left h more
  rw [readOperand_minus] at h
  rw [List.cons_append, readOperand_minus]
  cases hrun : minusRun true items with
  | mk odd later =>
    rw [hrun] at h
    cases later with
    | nil => cases h
    | cons item later =>
      have hlater : (minusRun true items).2 ≠ [] := by
        rw [hrun]
        exact List.cons_ne_nil _ _
      cases h
      rw [minusRun_append_more hlater, hrun]
      rfl

private theorem extendsLeaving_end {least : Nat} (hend : ∀ p, leading items = some p → p < least)
    (x : Float) : ExtendsLeaving items (readExpression x least) := by
  intro y left hleft h more
  rw [readExpression_end hend] at h
  cases h
  refine readExpression_end (fun p hp ↦ hend p ?_) x
  rwa [leading_append hleft] at hp

private theorem extendsLeaving_operator {x : Float} {least p : Nat} {symbol : Char}
    {rest : List Item} (hp : priority symbol = some p) (hleast : least ≤ p)
    (hoperand : Extends (binaryOperator symbol rest).2 readOperand)
    (hexpression : ∀ y left, readOperand (binaryOperator symbol rest).2 = .ok (y, left) →
      ExtendsLeaving left (readExpression y (tighter p)))
    (hlater : ∀ z left, readOperation x p (binaryOperator symbol rest) = .ok (z, left) →
      ExtendsLeaving left (readExpression z least)) :
    ExtendsLeaving (.operator symbol :: rest) (readExpression x least) := by
  intro y left hleft h more
  rw [readExpression_operator hp hleast] at h
  rw [List.cons_append, readExpression_operator hp hleast]
  obtain ⟨⟨z, middle⟩, hz, hy⟩ := exists_of_bind_eq_ok h
  have hmiddle : middle ≠ [] := by
    rintro rfl
    have hend : readExpression z least [] = .ok (z, []) := readExpression_end (by rintro _ ⟨⟩) z
    cases hend.symm.trans hy
    exact hleft rfl
  have hfrom := extends_readFrom hoperand hexpression
  rw [extends_readOperation hfrom hmiddle hz more, ok_bind]
  exact hlater z middle hz y left hleft hy more

/-- **Values are kept in front of more items.** -/
theorem extends_reading :
    (∀ items, Extends items readOperand) ∧ (∀ items, Extends items readGroup) ∧
      ∀ x least items, ExtendsLeaving items (readExpression x least) := by
  apply reading_induction (Extends · readOperand) (Extends · readGroup)
    (fun x least items ↦ ExtendsLeaving items (readExpression x least))
  constructor
  case groupNil =>
    rintro x left ⟨⟩
  case groupClosing =>
    rintro items x left ⟨⟩
  case groupCons => exact fun item items ↦ extends_groupCons
  case operandNil =>
    rintro x left ⟨⟩
  case number =>
    intro x items y left h more
    rw [readOperand_number] at h
    cases h
    exact readOperand_number x _
  case opening => exact fun items ↦ extends_opening
  case application => exact fun name items ↦ extends_application name
  case noArgument =>
    intro name items hitems x left h
    rw [readOperand_missingArgument name hitems] at h
    cases h
  case minus => exact extends_minus
  case missing =>
    intro item items hitem x left h
    rw [readOperand_missing hitem] at h
    cases h
  case expressionEnd => exact fun x least items hend ↦ extendsLeaving_end hend x
  case expressionOperator => exact fun x least symbol p rest ↦ extendsLeaving_operator

/-- **A group keeps its value in front of any items.** -/
theorem readGroup_append {x : Float} (h : readGroup items = .ok (x, left)) (more : List Item) :
    readGroup (items ++ more) = .ok (x, left ++ more) :=
  extends_reading.2.1 items x left h more

end Climbing

end Calculator
