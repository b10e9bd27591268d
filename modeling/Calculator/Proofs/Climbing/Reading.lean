import Calculator.Proofs.Climbing.Depth

/-!
# Reading without a bound

Precedence climbing as functions without a depth: each is the answer of its namesake at a depth
that suffices. They satisfy the same equations, now with plain errors, and every law about the
value of an expression is proved from these equations.

## From depths to values

A family of answers by depth *converges* if it is constant from some depth on. Convergence goes
through a sequence of calls and its limit is unique, so each equation between calls one level apart
gives an equation between limits.
-/

namespace Calculator

namespace Climbing

/-! ## Limits -/

section Limits

variable {α β : Type}

/-- From some depth on the answer is `r`. -/
def Converges (f : Nat → ExceptT EvalError Option α) (r : Except EvalError α) : Prop :=
  ∃ bound, ∀ d ≥ bound, f d = ExceptT.mk (some r)

namespace Converges

variable {f g : Nat → ExceptT EvalError Option α} {r s : Except EvalError α}

theorem unique (hr : Converges f r) (hs : Converges f s) : r = s := by
  obtain ⟨b, hb⟩ := hr
  obtain ⟨c, hc⟩ := hs
  have h := (hb (b + c) (Nat.le_add_right b c)).symm.trans (hc (b + c) (Nat.le_add_left c b))
  exact Option.some.inj h

private theorem const (r : Except EvalError α) : Converges (fun _ ↦ ExceptT.mk (some r)) r :=
  ⟨0, fun _ _ ↦ rfl⟩

theorem bind {k : Nat → α → ExceptT EvalError Option β} {t : α → Except EvalError β}
    (hf : Converges f r) (hk : ∀ a, Converges (k · a) (t a)) :
    Converges (fun d ↦ f d >>= k d) (r >>= t) := by
  obtain ⟨b, hb⟩ := hf
  cases r with
  | error cause => exact ⟨b, fun d hd ↦ by dsimp only; rw [hb d hd]; rfl⟩
  | ok a =>
    obtain ⟨c, hc⟩ := hk a
    refine ⟨b + c, fun d hd ↦ ?_⟩
    dsimp only
    rw [hb d (by omega)]
    exact hc d (by omega)

/-- The answers one level deeper have the same limit. -/
theorem succ (hg : Converges g r) (hfg : ∀ d, f (d + 1) = g d) : Converges f r := by
  obtain ⟨b, hb⟩ := hg
  refine ⟨b + 1, fun d hd ↦ ?_⟩
  obtain ⟨e, rfl⟩ := Nat.exists_eq_add_of_le' hd
  exact (hfg (e + b)).trans (hb (e + b) (by omega))

end Converges

end Limits

/-! ## The functions -/

/-- The answer at a depth, if there is one. -/
def answerAt (d : Nat) (f : Nat → Answer) : Except EvalError (Float × List Item) :=
  (f d).run.getD (.error .emptyGroup)

/-- A group behind its opening parenthesis. -/
def readGroup (items : List Item) : Except EvalError (Float × List Item) :=
  answerAt (4 * weight items + 2) (group · items)

/-- An operand. -/
def readOperand (items : List Item) : Except EvalError (Float × List Item) :=
  answerAt (4 * weight items + 1) (operand · items)

/-- The operators of priority `least` and above, folded into the number on their left. -/
def readExpression (x : Float) (least : Nat) (items : List Item) :
    Except EvalError (Float × List Item) :=
  answerAt (4 * weight items + 1) (expression · x least items)

/-- The operators that take a right operand from one of priority `p`, folded into it. -/
def readRight (y : Float) (p : Nat) (items : List Item) : Except EvalError (Float × List Item) :=
  answerAt (4 * weight items + 2) (rightOperand · y p items)

theorem SettlesFrom.eq_answerAt {d d' bound : Nat} {f : Nat → Answer} (h : SettlesFrom d bound f)
    (hd : d ≤ d') : f d' = ExceptT.mk (some (answerAt d f)) := by
  obtain ⟨r, hr, -⟩ := h
  rw [answerAt, hr d (Nat.le_refl _), hr d' hd]
  rfl

theorem SettlesFrom.converges {d bound : Nat} {f : Nat → Answer} (h : SettlesFrom d bound f) :
    Converges f (answerAt d f) := ⟨d, fun _ hd ↦ h.eq_answerAt hd⟩

private theorem converges_group (items : List Item) : Converges (group · items) (readGroup items) :=
  ((settles _).group items (Nat.le_refl _)).converges

private theorem converges_operand (items : List Item) :
    Converges (operand · items) (readOperand items) :=
  ((settles _).operand items (Nat.le_refl _)).converges

private theorem converges_expression (x : Float) (least : Nat) (items : List Item) :
    Converges (expression · x least items) (readExpression x least items) :=
  ((settles _).expression x least items (Nat.le_refl _)).1.converges

private theorem converges_rightOperand (y : Float) (p : Nat) (items : List Item) :
    Converges (rightOperand · y p items) (readRight y p items) :=
  ((settles _).rightOperand y p items (Nat.le_refl _)).converges

/-! ## What is left is lighter -/

theorem SettlesFrom.weight_lt {d bound : Nat} {f : Nat → Answer} {x : Float} {rest : List Item}
    (h : SettlesFrom d bound f) (hx : answerAt d f = .ok (x, rest)) : weight rest < bound := by
  obtain ⟨r, hr, hweight⟩ := h
  rw [answerAt, hr d (Nat.le_refl _)] at hx
  exact hweight x rest hx

theorem weight_lt_of_readOperand {x : Float} {items rest : List Item}
    (h : readOperand items = .ok (x, rest)) : weight rest < weight items :=
  ((settles _).operand items (Nat.le_refl _)).weight_lt h

theorem weight_lt_of_readExpression {x y : Float} {least p : Nat} {items rest : List Item}
    (hp : leading items = some p) (hleast : least ≤ p)
    (h : readExpression x least items = .ok (y, rest)) : weight rest < weight items :=
  (((settles _).expression x least items (Nat.le_refl _)).2 p hp hleast).weight_lt h

theorem weight_le_of_readRight {y z : Float} {p : Nat} {items rest : List Item}
    (h : readRight y p items = .ok (z, rest)) : weight rest ≤ weight items :=
  Nat.lt_succ_iff.mp (((settles _).rightOperand y p items (Nat.le_refl _)).weight_lt h)

/-! ## Equations -/

/-- An operand and the operators of priority `least` and above behind it. -/
def readFrom (least : Nat) (items : List Item) : Except EvalError (Float × List Item) := do
  let (x, items) ← readOperand items
  readExpression x least items

/-- The end of a group behind its value. -/
def closeGroup : Float × List Item → Except EvalError (Float × List Item)
  | (x, .closing :: items) => .ok (x, items)
  | (_, item :: _) => .error (.unexpectedToken item.text)
  | (_, []) => .error .unclosedGroup

theorem readGroup_cons {item : Item} (hitem : item ≠ .closing) (items : List Item) :
    readGroup (item :: items) = readFrom 1 (item :: items) >>= closeGroup := by
  rw [readFrom, bind_assoc]
  refine (converges_group _).unique (.succ ?_ fun d ↦ group_cons hitem d items)
  refine (converges_operand _).bind fun answer ↦ ?_
  refine (converges_expression _ _ _).bind fun answer ↦ ?_
  rcases answer with ⟨x, _ | ⟨item, rest⟩⟩
  · exact .const _
  · cases item <;> exact .const _

theorem readGroup_closing (items : List Item) :
    readGroup (.closing :: items) = .error .emptyGroup := rfl

theorem readOperand_number (x : Float) (items : List Item) :
    readOperand (.number x :: items) = .ok (x, items) := rfl

theorem readOperand_opening (items : List Item) :
    readOperand (.opening :: items) = readGroup items :=
  (converges_operand _).unique ((converges_group items).succ fun _ ↦ rfl)

theorem readOperand_function (name : String) (items : List Item) :
    readOperand (.function name :: .opening :: items) = (do
      let (x, items) ← readGroup items
      let y ← (Computation.application name x).value
      return (y, items)) := by
  refine (converges_operand _).unique (.succ ?_ fun d ↦ operand_function d name items)
  refine (converges_group _).bind fun answer ↦ ?_
  dsimp only [applyTo]
  cases (Computation.application name answer.1).value <;> exact .const _

theorem readOperand_missingArgument (name : String) {items : List Item}
    (hitems : ∀ rest, items ≠ .opening :: rest) :
    readOperand (.function name :: items) = .error (.missingArgument name) := by
  refine (converges_operand _).unique (.succ (.const _) fun d ↦ ?_)
  cases items with
  | nil => rfl
  | cons item rest =>
    cases item with
    | opening => exact absurd rfl (hitems rest)
    | _ => rfl

theorem readOperand_missing {item : Item} (hitem : item = .closing ∨ ∃ symbol, symbol ≠ '-' ∧
    item = .operator symbol) (items : List Item) :
    readOperand (item :: items)
      = .error (.missingOperand (if items = [] then none else some item.text)) :=
  (converges_operand _).unique (.succ (.const _) fun d ↦ operand_missing hitem d items)

theorem readOperand_minus (items : List Item) :
    readOperand (.operator '-' :: items) = match minusRun true items with
      | (_, []) => .error (.missingOperand none)
      | (odd, items) => .ok (if odd then -1.0 else 1.0, .operator '*' :: items) := by
  refine (converges_operand _).unique (.succ ?_ fun d ↦ operand_minus d items)
  generalize minusRun true items = run
  obtain ⟨odd, _ | ⟨item, items⟩⟩ := run <;> exact .const _

theorem readExpression_end {least : Nat} {items : List Item}
    (hend : ∀ p, leading items = some p → p < least) (x : Float) :
    readExpression x least items = .ok (x, items) :=
  (converges_expression _ _ _).unique (.succ (.const _) fun d ↦ expression_end hend d x)

/-- An operator of priority `p` and its right operand, applied to the number on their left. -/
def readOperation (x : Float) (p : Nat) : Char × List Item → Except EvalError (Float × List Item)
  | (_, []) => .error (.missingOperand none)
  | (symbol, items) => do
    let (y, items) ← readOperand items
    let (y, items) ← readRight y p items
    let z ← (Computation.combination x symbol y).value
    return (z, items)

theorem readExpression_operator {least p : Nat} {symbol : Char} (hp : priority symbol = some p)
    (hleast : least ≤ p) (x : Float) (rest : List Item) :
    readExpression x least (.operator symbol :: rest) = (do
      let (z, items) ← readOperation x p (binaryOperator symbol rest)
      readExpression z least items) := by
  refine (converges_expression _ _ _).unique
    (.succ ?_ fun d ↦ expression_operator hp hleast d x rest)
  rcases binaryOperator symbol rest with ⟨symbol, _ | ⟨item, items⟩⟩
  · exact .const _
  rw [readOperation, bind_assoc]
  · refine (converges_operand _).bind fun answer ↦ ?_
    rw [bind_assoc]
    refine (converges_rightOperand _ _ _).bind fun answer ↦ ?_
    dsimp only
    cases (Computation.combination x symbol answer.1).value with
    | ok z => exact converges_expression _ _ _
    | error cause => exact .const _
  · exact List.cons_ne_nil _ _

theorem readRight_end {p : Nat} {items : List Item}
    (hend : ∀ q, leading items = some q → ¬ takesFrom p q) (y : Float) :
    readRight y p items = .ok (y, items) :=
  (converges_rightOperand _ _ _).unique (.succ (.const _) fun d ↦ rightOperand_end hend d y)

theorem readRight_operator {p q : Nat} {items : List Item} (hq : leading items = some q)
    (htakes : takesFrom p q) (y : Float) :
    readRight y p items = (do
      let (y, rest) ← readExpression y q items
      readRight y p rest) := by
  refine (converges_rightOperand _ _ _).unique
    (.succ ?_ fun d ↦ rightOperand_operator hq htakes d y)
  refine (converges_expression _ _ _).bind fun answer ↦ ?_
  exact converges_rightOperand _ _ _

/-! ## Whole expressions -/

theorem length_of_mapM {tokens : List Token} {items : List Item}
    (h : tokens.mapM Item.ofToken = .ok items) : items.length = tokens.length := by
  induction tokens generalizing items with
  | nil =>
    cases h
    rfl
  | cons token tokens ih =>
    obtain ⟨item, rest, -, hrest, rfl⟩ := exists_of_mapM_cons h
    rw [List.length_cons, List.length_cons, ih hrest]

theorem length_of_readItems {tokens : List Token} {items : List Item}
    (h : readItems tokens = .ok items) : items.length = tokens.length := by
  rw [readItems] at h
  split at h
  · exact length_of_mapM h
  · cases h

/-- **The bound is never reached**: the value of an expression is read without one. -/
theorem evaluate_eq (tokens : List Token) :
    evaluate tokens = some (do
      let items ← readItems tokens
      let (x, _) ← readGroup (items ++ [.closing])
      return x) := by
  rw [evaluate, evaluateWithin_eq]
  cases hitems : readItems tokens with
  | error cause => rfl
  | ok items =>
    have hlength := length_of_readItems hitems
    have hweight := weight_le_length (items ++ [.closing])
    rw [List.length_append, List.length_singleton, hlength] at hweight
    have hbound : 4 * weight (items ++ [.closing]) + 2 ≤ depthBound tokens := by
      rw [depthBound]
      omega
    have hgroup := ((settles _).group (items ++ [.closing]) (Nat.le_refl _)).eq_answerAt hbound
    dsimp only at hgroup ⊢
    rw [hgroup]
    change some ((readGroup (items ++ [.closing])).map Prod.fst) = _
    cases hread : readGroup (items ++ [.closing]) with
    | error cause => simp [bind, Except.bind, hread, Except.map]
    | ok answer => simp [bind, Except.bind, hread, Except.map, pure, Except.pure]

end Climbing

end Calculator
