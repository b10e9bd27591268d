import Calculator.Proofs.Climbing.Equations
import Calculator.Proofs.Reduction.Run

/-!
# Accounts of a reduction

An account puts a price on each step of a reduction, and says what the items that are left still
cost. One law for each construct of an expression ties the two together: what a construct costs is
the price of the steps that reduce it. What was spent and what is due then always make the same
total, as long as a reduction goes on.

## What stands before the items

A run of minus signs is an operator behind an operand and a factor elsewhere, so what is due depends
on whether an operand ends right before the items. It depends on nothing else before them, which is
why a task can be followed on what is behind its place alone.
-/

namespace Calculator

namespace Reduction

open Sequence Climbing

/-- Prices for steps, and what items cost by them. -/
structure Account where
  price : Step → Nat
  due : (behindOperand : Bool) → List Item → Nat
  price_start (task : Task) : price (.start task) = 0
  price_look (h : Handle) : price (.look h) = 0
  price_set (h : Handle) (cell : Cell) : price (.edit (.set h cell)) = 0
  price_remove (h : Handle) : price (.edit (.remove h)) = 0
  price_reducing (s : Sequence) : price (.report (.reducing s)) = 0
  price_result (x : Float) : price (.report (.result x)) = 0
  due_number (x : Float) (items : List Item) : due false (.number x :: items) = due true items
  due_opening (items : List Item) : due false (.opening :: items) = due false items
  due_closing (items : List Item) : due true (.closing :: items) = due true items
  due_function (name : String) (x y : Float) (items : List Item) :
    due false (.function name :: items)
      = price (.report (.application name x y)) + due false items
  /-- A run in front of an operand becomes a factor, and the product is still to be computed. -/
  due_factor (h : Handle) (sign : Float) (items : List Item) :
    due false (.operator '-' :: items)
      = price (.report (.unaryMinusRun sign)) + price (.edit (.insertBefore h (.operator '*')))
        + due true (.operator '*' :: (minusRun true items).2)
  /-- A run between two operands is reported if it becomes another operator. -/
  due_operator {symbol : Char} {p : Nat} (x y z : Float) (items : List Item) :
    priority symbol = some p → due true (.operator symbol :: items)
      = (if (binaryOperator symbol items).1 = symbol then 0 else price (.report .binaryMinusRun))
        + price (.report (.combination x (binaryOperator symbol items).1 y z))
        + due false (binaryOperator symbol items).2

namespace Account

/-- The account by which nothing costs anything. -/
def free : Account where
  price _ := 0
  due _ _ := 0
  price_start _ := rfl
  price_look _ := rfl
  price_set _ _ := rfl
  price_remove _ := rfl
  price_reducing _ := rfl
  price_result _ := rfl
  due_number _ _ := rfl
  due_opening _ := rfl
  due_closing _ := rfl
  due_function _ _ _ _ := rfl
  due_factor _ _ _ := rfl
  due_operator _ _ _ _ _ := by simp

variable {A : Account}

/-- The price of all steps of a history. -/
def cost (A : Account) : List Step → Nat
  | [] => 0
  | step :: history => A.price step + A.cost history

theorem cost_append (history later : List Step) :
    A.cost (history ++ later) = A.cost history + A.cost later := by
  induction history with
  | nil => exact (Nat.zero_add _).symm
  | cons step history ih => rw [List.cons_append, cost, cost, ih, Nat.add_assoc]

theorem cost_reverse (history : List Step) : A.cost history.reverse = A.cost history := by
  induction history with
  | nil => rfl
  | cons step history ih =>
    rw [List.reverse_cons, cost_append, ih, cost, cost, cost, Nat.add_zero, Nat.add_comm]

/-- A workspace with the given entries, reached by moves that cost `spent`. -/
structure At (A : Account) (w : Workspace) (origin : Sequence) (es : List Entry) (spent : Nat) :
    Prop where
  holds : w.Holds origin es
  cost_eq : A.cost w.history = spent

theorem at_free {w : Workspace} {origin : Sequence} {es : List Entry} (hw : w.Holds origin es) :
    free.At w origin es (free.cost w.history) := ⟨hw, rfl⟩

/-! ## Rules

Each thing a reduction does, with what it costs. -/

namespace At

variable {α : Type} {origin : Sequence} {w : Workspace} {es es' before after : List Entry}
  {spent : Nat} {h : Handle} {cell : Cell} {post : Except Fault α → Workspace → Prop}

theorem represents (hw : A.At w origin es spent) : w.sequence.Represents es := hw.holds.represents

theorem step {step : Step} (hw : A.At w origin es spent)
    (hmove : Move w.sequence.slots.size es step es') :
    A.At ⟨step.effect w.sequence, step :: w.history⟩ origin es' (spent + A.price step) where
  holds := Chronicle.step hw.holds hmove
  cost_eq := by rw [cost, hw.cost_eq, Nat.add_comm]

private theorem step_of_price {step : Step} (hw : A.At w origin es spent)
    (hmove : Move w.sequence.slots.size es step es') (hprice : A.price step = 0) :
    A.At ⟨step.effect w.sequence, step :: w.history⟩ origin es' spent := by
  have hstep := hw.step hmove
  rwa [hprice] at hstep

theorem start {task : Task} {f : Unit → Reduction α} (hw : A.At w origin es spent)
    (hready : Ready task es) (hf : ∀ w', A.At w' origin es spent → Ensures (f ()) w' post) :
    Ensures (note (.start task) >>= f) w post := by
  rw [Ensures, run_note]
  exact hf _ (hw.step_of_price (.start hready) (A.price_start task))

theorem report {event : Log.Event} {f : Unit → Reduction α} (hw : A.At w origin es spent)
    (hf : ∀ w', A.At w' origin es (spent + A.price (.report event)) → Ensures (f ()) w' post) :
    Ensures (report event >>= f) w post := by
  rw [Ensures, Reduction.report, run_note]
  exact hf _ (hw.step .report)

theorem cellAt {f : Cell → Reduction α} (hw : A.At w origin es spent)
    (hes : es = before ++ (h, cell) :: after)
    (hf : ∀ w', A.At w' origin es spent → Ensures (f cell) w' post) :
    Ensures (cellAt h >>= f) w post := by
  rw [Ensures, run_cellAt hw.represents hes]
  exact hf _ (hw.step_of_price (.look (by simp [hes])) (A.price_look h))

theorem nextOf {f : Option Handle → Reduction α} (hw : A.At w origin es spent)
    (hes : es = before ++ (h, cell) :: after)
    (hf : ∀ w', A.At w' origin es spent → Ensures (f (firstOf after)) w' post) :
    Ensures (nextOf h >>= f) w post := by
  rw [Ensures, run_nextOf hw.represents hes]
  exact hf _ (hw.step_of_price (.look (by simp [hes])) (A.price_look h))

theorem edit {e : Edit} {f : Unit → Reduction α} (hw : A.At w origin es spent)
    (hmove : Move w.sequence.slots.size es (.edit e) es')
    (hf : ∀ w', A.At w' origin es' (spent + A.price (.edit e)) → Ensures (f ()) w' post) :
    Ensures (edit e >>= f) w post := by
  rw [Ensures, run_edit hw.represents fun _ htarget ↦ hmove.mem_of_target? htarget]
  exact hf _ (hw.step hmove)

theorem set {old new : Cell} {f : Unit → Reduction α} (hw : A.At w origin es spent)
    (hes : es = before ++ (h, old) :: after) (hold : old.isPlain) (hnew : new.isPlain)
    (hf : ∀ w', A.At w' origin (before ++ (h, new) :: after) spent → Ensures (f ()) w' post) :
    Ensures (Reduction.edit (.set h new) >>= f) w post := by
  subst hes
  have hprice := A.price_set h new
  exact hw.edit (.set hold hnew) fun w hw ↦ hf w (by rwa [hprice] at hw)

theorem insertBefore {new : Cell} {f : Unit → Reduction α} (hw : A.At w origin es spent)
    (hes : es = before ++ (h, cell) :: after) (hnew : new.isPlain)
    (hf : ∀ w' fresh, A.At w' origin (before ++ (fresh, new) :: (h, cell) :: after)
      (spent + A.price (.edit (.insertBefore h new))) → Ensures (f ()) w' post) :
    Ensures (Reduction.edit (.insertBefore h new) >>= f) w post := by
  subst hes
  exact hw.edit (.insert hnew) fun w hw ↦ hf w _ hw

theorem remove {f : Unit → Reduction α} (hw : A.At w origin es spent)
    (hes : es = before ++ (h, cell) :: after) (hremovable : Removable cell (before ++ after))
    (hf : ∀ w', A.At w' origin (before ++ after) spent → Ensures (f ()) w' post) :
    Ensures (Reduction.edit (.remove h) >>= f) w post := by
  subst hes
  have hprice := A.price_remove h
  exact hw.edit (.remove hremovable) fun w hw ↦ hf w (by rwa [hprice] at hw)

end At

/-! ## Endings -/

section Endings

variable {α β : Type} {origin : Sequence} {w : Workspace} {es : List Entry}
  {spent total total' : Nat} {good : α → List Entry → Nat → Prop}
  {good' : β → List Entry → Nat → Prop}

/-- A reduction ends with a value, or with an error before it spent more than `total`. -/
inductive Ends (A : Account) (origin : Sequence) (total : Nat)
    (good : α → List Entry → Nat → Prop) (w : Workspace) : Except Fault α → Prop where
  | value {es : List Entry} {spent : Nat} {a : α} : A.At w origin es spent → good a es spent →
      Ends A origin total good w (.ok a)
  | error {es : List Entry} {spent : Nat} {cause : EvalError} : A.At w origin es spent →
      spent ≤ total → Ends A origin total good w (.error (.error cause))

theorem Ends.ne_exhausted {result : Except Fault α} (h : A.Ends origin total good w result) :
    result ≠ .error .exhausted := by
  cases h <;> rintro ⟨⟩

/-- Whatever the ending, it comes, and the account is kept. -/
def Pays (A : Account) (origin : Sequence) (m : Reduction α) (w : Workspace) (total : Nat)
    (good : α → List Entry → Nat → Prop) : Prop :=
  Ensures m w fun result w' ↦ A.Ends origin total good w' result

theorem pays_pure {a : α} (hw : A.At w origin es spent) (hgood : good a es spent) :
    A.Pays origin (pure a) w total good := .value hw hgood

theorem pays_fail {cause : EvalError} (hw : A.At w origin es spent) (hspent : spent ≤ total) :
    A.Pays origin (fail cause) w total good := .error hw hspent

/-- **The rule for a sequence.** The first part may keep to a smaller total. -/
theorem Pays.bind {m : Reduction α} {f : α → Reduction β} (hm : A.Pays origin m w total good)
    (hle : total ≤ total')
    (hf : ∀ a w' es spent, A.At w' origin es spent → good a es spent →
      A.Pays origin (f a) w' total' good') :
    A.Pays origin (m >>= f) w total' good' := by
  refine ensures_bind ?_
  unfold Pays Ensures at hm
  unfold Ensures
  generalize m.run.run w = r at hm ⊢
  obtain ⟨result, w'⟩ := r
  dsimp only at hm ⊢
  cases hm with
  | value hw hgood => exact hf _ _ _ _ hw hgood
  | error hw hspent => exact .error hw (Nat.le_trans hspent hle)

/-- A reduction answers, and what it answered and spent is as `good` says. -/
def Answers (A : Account) (origin : Sequence) (m : Reduction α) (w : Workspace)
    (good : α → List Entry → Nat → Prop) : Prop :=
  Ensures m w fun result w' ↦ ∃ a es spent, result = .ok a ∧ A.At w' origin es spent ∧
    good a es spent

theorem answers_pure {a : α} (hw : A.At w origin es spent) (hgood : good a es spent) :
    A.Answers origin (pure a) w good := ⟨a, es, spent, rfl, hw, hgood⟩

theorem Answers.bind {m : Reduction α} {f : α → Reduction β}
    {post : Except Fault β → Workspace → Prop} (hm : A.Answers origin m w good)
    (hf : ∀ a w' es spent, A.At w' origin es spent → good a es spent → Ensures (f a) w' post) :
    Ensures (m >>= f) w post := by
  refine ensures_bind ?_
  unfold Answers Ensures at hm
  unfold Ensures
  obtain ⟨a, es, spent, hresult, hw, hgood⟩ := hm
  rw [hresult]
  exact hf a _ es spent hw hgood

end Endings

end Account

end Reduction

end Calculator
