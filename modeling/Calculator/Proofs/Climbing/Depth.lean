import Calculator.Proofs.Climbing.Equations

/-!
# The bound on the depth is never reached

Every call of precedence climbing ends, and from some depth on its result no longer depends on the
depth. The measure is the weight of the items that are left.

## Weights

A call takes items away or comes closer to one that does. The only call that puts an item in front
is that of an operand at a run of minus signs, which becomes a factor and a product; so a minus sign
weighs two and every other item one.

## Which depth suffices

A group calls an operand on the same items, and a right operand calls an expression on the same
items; every other call is on lighter ones. Four levels for each unit of weight therefore suffice.
-/

namespace Calculator

namespace Climbing

/-! ## Weights -/

/-- The weight of an item. -/
def Item.weight : Item → Nat
  | operator '-' => 2
  | _ => 1

/-- The weight of items. -/
def weight : List Item → Nat
  | [] => 0
  | item :: items => item.weight + weight items

@[simp] theorem weight_nil : weight [] = 0 := rfl

@[simp] theorem weight_cons (item : Item) (items : List Item) :
    weight (item :: items) = item.weight + weight items := rfl

theorem weight_append (items rest : List Item) :
    weight (items ++ rest) = weight items + weight rest := by
  induction items with
  | nil => exact (Nat.zero_add _).symm
  | cons item items ih => rw [List.cons_append, weight_cons, weight_cons, ih, Nat.add_assoc]

theorem Item.weight_pos (item : Item) : 0 < item.weight := by
  unfold Item.weight
  split <;> omega

theorem Item.weight_le (item : Item) : item.weight ≤ 2 := by
  unfold Item.weight
  split <;> omega

theorem weight_le_length (items : List Item) : weight items ≤ 2 * items.length := by
  induction items with
  | nil => exact Nat.le_refl _
  | cons item items ih =>
    have hitem := item.weight_le
    rw [weight_cons, List.length_cons]
    omega

theorem weight_minusRun (odd : Bool) (items : List Item) :
    weight (minusRun odd items).2 ≤ weight items := by
  fun_induction minusRun odd items with
  | case1 odd items ih =>
    rw [weight_cons]
    omega
  | case2 => exact Nat.le_refl _

theorem weight_binaryOperator (symbol : Char) (items : List Item) :
    weight (binaryOperator symbol items).2 ≤ weight items := by
  rw [binaryOperator]
  split
  · exact weight_minusRun true items
  · exact Nat.le_refl _

/-! ## Settling -/

/-- From depth `d` on the answer is the same, and leaves items lighter than `bound`. -/
def SettlesFrom (d bound : Nat) (f : Nat → Answer) : Prop :=
  ∃ r : Except EvalError (Float × List Item), (∀ d' ≥ d, f d' = ExceptT.mk (some r)) ∧
    ∀ x rest, r = .ok (x, rest) → weight rest < bound

namespace SettlesFrom

variable {d bound bound' : Nat} {f g : Nat → Answer}

theorem mono (h : SettlesFrom d bound f) (hbound : bound ≤ bound') : SettlesFrom d bound' f := by
  obtain ⟨r, hr, hweight⟩ := h
  exact ⟨r, hr, fun x rest hx ↦ Nat.lt_of_lt_of_le (hweight x rest hx) hbound⟩

theorem pure {x : Float} {rest : List Item} (h : weight rest < bound) :
    SettlesFrom d bound fun _ ↦ Pure.pure (x, rest) :=
  ⟨.ok (x, rest), fun _ _ ↦ rfl, by rintro _ _ ⟨⟩; exact h⟩

theorem throw (cause : EvalError) : SettlesFrom d bound fun _ ↦ MonadExcept.throw cause :=
  ⟨.error cause, fun _ _ ↦ rfl, by rintro _ _ ⟨⟩⟩

theorem bind {k : Nat → Float × List Item → Answer} (hf : SettlesFrom d bound f)
    (hk : ∀ x rest, weight rest < bound → SettlesFrom d bound' fun d' ↦ k d' (x, rest)) :
    SettlesFrom d bound' fun d' ↦ f d' >>= k d' := by
  obtain ⟨r, hr, hweight⟩ := hf
  cases r with
  | error cause =>
    refine ⟨.error cause, fun d' hd' ↦ ?_, by rintro _ _ ⟨⟩⟩
    dsimp only
    rw [hr d' hd']
    rfl
  | ok a =>
    obtain ⟨r', hr', hweight'⟩ := hk a.1 a.2 (hweight a.1 a.2 rfl)
    refine ⟨r', fun d' hd' ↦ ?_, hweight'⟩
    rw [← hr' d' hd']
    dsimp only
    rw [hr d' hd']
    rfl

/-- What a call does one level deeper, it does. -/
theorem succ (hg : SettlesFrom d bound g) (hfg : ∀ d', f (d' + 1) = g d') :
    SettlesFrom (d + 1) bound f := by
  obtain ⟨r, hr, hweight⟩ := hg
  refine ⟨r, fun d' hd' ↦ ?_, hweight⟩
  obtain ⟨e, rfl⟩ := Nat.exists_eq_add_of_le' hd'
  rw [← hr (e + d) (by omega)]
  exact hfg _

end SettlesFrom

/-- At a depth that suffices for the weight, every call has settled. -/
structure Settles (d : Nat) : Prop where
  group (items : List Item) : 4 * weight items + 2 ≤ d →
    SettlesFrom d (weight items) (Climbing.group · items)
  operand (items : List Item) : 4 * weight items + 1 ≤ d →
    SettlesFrom d (weight items) (Climbing.operand · items)
  expression (x : Float) (least : Nat) (items : List Item) : 4 * weight items + 1 ≤ d →
    SettlesFrom d (weight items + 1) (Climbing.expression · x least items) ∧
      ∀ p, leading items = some p → least ≤ p →
        SettlesFrom d (weight items) (Climbing.expression · x least items)
  rightOperand (y : Float) (p : Nat) (items : List Item) : 4 * weight items + 2 ≤ d →
    SettlesFrom d (weight items + 1) (Climbing.rightOperand · y p items)

namespace Settles

variable {d : Nat}

theorem group_succ (ih : Settles d) (items : List Item) (hd : 4 * weight items + 2 ≤ d + 1) :
    SettlesFrom (d + 1) (weight items) (Climbing.group · items) := by
  by_cases hitems : items = [] ∨ ∃ rest, items = .closing :: rest
  · refine (SettlesFrom.throw .emptyGroup).succ fun d' ↦ ?_
    rcases hitems with rfl | ⟨rest, rfl⟩ <;> rfl
  rw [not_or] at hitems
  obtain ⟨item, rest, rfl⟩ := List.exists_cons_of_ne_nil hitems.1
  have hitem : item ≠ .closing := by
    rintro rfl
    exact hitems.2 ⟨rest, rfl⟩
  refine SettlesFrom.succ ?_ fun d' ↦ group_cons hitem d' rest
  -- An operand needs one level less than a group on the same items.
  refine (ih.operand _ (by omega)).bind fun x rest hx ↦ ?_
  refine (ih.expression _ _ _ (by omega)).1.bind fun y rest hy ↦ ?_
  rcases rest with _ | ⟨item, rest⟩
  · exact .throw _
  · cases item with
    | closing =>
      rw [weight_cons] at hy
      exact .pure (by omega)
    | _ => exact .throw _

theorem operand_succ (ih : Settles d) (items : List Item) (hd : 4 * weight items + 1 ≤ d + 1) :
    SettlesFrom (d + 1) (weight items) (Climbing.operand · items) := by
  rcases items with _ | ⟨item, rest⟩
  · exact (SettlesFrom.throw _).succ fun _ ↦ rfl
  have hitem := item.weight_pos
  rw [weight_cons] at hd ⊢
  cases item with
  | number x => exact (SettlesFrom.pure (by omega)).succ fun _ ↦ rfl
  | opening => exact ((ih.group rest (by omega)).mono (by omega)).succ fun _ ↦ rfl
  | closing => exact (SettlesFrom.throw _).succ fun d' ↦ operand_missing (.inl rfl) d' rest
  | function name =>
    rcases rest with _ | ⟨item, rest⟩
    · exact (SettlesFrom.throw _).succ fun _ ↦ rfl
    · cases item with
      | opening =>
        rw [weight_cons] at hd
        refine SettlesFrom.succ ?_ fun d' ↦ operand_function d' name rest
        refine (ih.group rest (by omega)).bind fun x rest' hx ↦ ?_
        dsimp only [applyTo]
        cases (Computation.application name x).value with
        | ok y => exact .pure (by rw [weight_cons]; omega)
        | error cause => exact .throw cause
      | _ => exact (SettlesFrom.throw _).succ fun _ ↦ rfl
  | operator symbol =>
    by_cases hsymbol : symbol = '-'
    · subst hsymbol
      have hrun := weight_minusRun true rest
      refine SettlesFrom.succ ?_ fun d' ↦ operand_minus d' rest
      generalize minusRun true rest = run at hrun ⊢
      obtain ⟨odd, _ | ⟨item, items⟩⟩ := run
      · exact .throw _
      · have hminus : (Item.operator '-').weight = 2 := rfl
        have hproduct : (Item.operator '*').weight = 1 := rfl
        refine .pure ?_
        rw [weight_cons, hproduct, hminus]
        dsimp only at hrun
        omega
    · have hmissing := operand_missing (.inr ⟨symbol, hsymbol, rfl⟩)
      exact (SettlesFrom.throw _).succ fun d' ↦ hmissing d' rest

theorem expression_succ (ih : Settles d) (x : Float) (least : Nat) (items : List Item)
    (hd : 4 * weight items + 1 ≤ d + 1) :
    SettlesFrom (d + 1) (weight items + 1) (Climbing.expression · x least items) ∧
      ∀ p, leading items = some p → least ≤ p →
        SettlesFrom (d + 1) (weight items) (Climbing.expression · x least items) := by
  have hoperator : ∀ p, leading items = some p → least ≤ p →
      SettlesFrom (d + 1) (weight items) (Climbing.expression · x least items) := by
    intro p hp hleast
    obtain ⟨symbol, rest, rfl, hp⟩ := exists_of_leading hp
    have hitem := (Item.operator symbol).weight_pos
    have hrun := weight_binaryOperator symbol rest
    rw [weight_cons] at hd ⊢
    refine SettlesFrom.succ ?_ fun d' ↦ expression_operator hp hleast d' x rest
    generalize binaryOperator symbol rest = run at hrun ⊢
    obtain ⟨symbol, _ | ⟨item, items⟩⟩ := run
    · exact .throw _
    · -- The operator is taken off, which pays for all that is read behind it.
      dsimp only at hrun
      refine (ih.operand _ (by omega)).bind fun y rest hy ↦ ?_
      refine (ih.rightOperand _ _ _ (by omega)).bind fun y rest hy ↦ ?_
      dsimp only
      cases (Computation.combination x symbol y).value with
      | ok z => exact (ih.expression z least rest (by omega)).1.mono (by omega)
      | error cause => exact .throw cause
  refine ⟨?_, hoperator⟩
  by_cases hp : ∃ p, leading items = some p ∧ least ≤ p
  · obtain ⟨p, hp, hleast⟩ := hp
    exact (hoperator p hp hleast).mono (Nat.le_succ _)
  · refine (SettlesFrom.pure (Nat.lt_succ_self _)).succ fun d' ↦ expression_end ?_ d' x
    intro p hleading
    exact Nat.lt_of_not_le fun hleast ↦ hp ⟨p, hleading, hleast⟩

theorem rightOperand_succ (ih : Settles d) (y : Float) (p : Nat) (items : List Item)
    (hd : 4 * weight items + 2 ≤ d + 1) :
    SettlesFrom (d + 1) (weight items + 1) (Climbing.rightOperand · y p items) := by
  by_cases hq : ∃ q, leading items = some q ∧ takesFrom p q
  · obtain ⟨q, hq, htakes⟩ := hq
    refine SettlesFrom.succ ?_ fun d' ↦ rightOperand_operator hq htakes d' y
    -- The expression begins with an operator of its own least priority, so it takes an item away.
    refine ((ih.expression _ _ _ (by omega)).2 q hq (Nat.le_refl _)).bind fun y rest hy ↦ ?_
    exact (ih.rightOperand _ _ _ (by omega)).mono (by omega)
  · refine (SettlesFrom.pure (Nat.lt_succ_self _)).succ fun d' ↦ rightOperand_end ?_ d' y
    intro q hleading htakes
    exact hq ⟨q, hleading, htakes⟩

end Settles

/-- **Every call has settled at the depth that its weight asks for.** -/
theorem settles (d : Nat) : Settles d := by
  induction d with
  | zero =>
    constructor
    · intro items hd
      omega
    · intro items hd
      omega
    · intro x least items hd
      omega
    · intro y p items hd
      omega
  | succ d ih => exact ⟨ih.group_succ, ih.operand_succ, ih.expression_succ, ih.rightOperand_succ⟩

end Climbing

end Calculator
