import Calculator.Proofs.Reduction.Descent
import Calculator.Proofs.Reduction.Parts

/-!
# Every task ends and keeps every account

What a task does to the account and to the weight of what is behind its place, whether it ends with
a number or with an error. The body of each task keeps to this if the tasks that it calls do and
weigh less than it; so every task does, with no bound but its own weight, and no call is refused.

## Totals

A task is given the total of what was spent before and what is due to the items at its place. When
it has answered, the total is the same again; when it fails, no more than the total was spent. A
call inside a combination keeps to a total without the price of the combination, which is still to
be computed then.
-/

namespace Calculator

namespace Reduction

open Sequence Climbing

namespace Account

variable {A : Account} {origin : Sequence} {w : Workspace}
  {es before body inner after rest : List Entry} {spent total below : Nat} {h : Handle}
  {cell : Cell}

/-- A number is left in front of `after`, and only what is behind it is still due. -/
def Leaves (A : Account) (before after : List Entry) (total : Nat) (h : Handle) (es : List Entry)
    (spent : Nat) : Prop :=
  ∃ x, es = before ++ (h, .number x) :: after ∧ spent + A.due true (itemsOf after) = total

/-- A number is left in front of a body and the rest, which weigh less than `below`. -/
def LeavesBody (A : Account) (before rest : List Entry) (total below : Nat) (h : Handle)
    (es : List Entry) (spent : Nat) : Prop :=
  ∃ body, IsBody body ∧ weight (itemsOf (body ++ rest)) < below ∧
    A.Leaves before (body ++ rest) total h es spent

/-- What an expression leaves is lighter than `below`: its items are, or they are no heavier and it
takes the first of them, an operator of priority `least` or above. -/
def GoesBelow (least : Nat) (items : List Item) (below : Nat) : Prop :=
  weight items < below ∨ weight items ≤ below ∧ ∃ p, leading items = some p ∧ least ≤ p

/-! ## The contract of tasks -/

/-- A way to do tasks keeps the account on every task that weighs less than `bound`: it ends, and
leaves a number and what is still due. -/
structure Keeps (A : Account) (recur : Task → Reduction Handle) (bound : Nat) : Prop where
  group {origin : Sequence} {w : Workspace} {es before inner after : List Entry}
      {opening closing : Handle} {spent total : Nat} :
    IsBody inner → A.At w origin es spent →
      es = before ++ (opening, .opening closing) ::
        (inner ++ (closing, .closing opening) :: after) →
      2 * weight (itemsOf (inner ++ (closing, .closing opening) :: after)) + 1 < bound →
      spent + A.due false (itemsOf (inner ++ (closing, .closing opening) :: after)) = total →
      A.Pays origin (recur (.group opening)) w total (A.Leaves before after total)
  operand {origin : Sequence} {w : Workspace} {es before body rest : List Entry} {start : Handle}
      {spent total below : Nat} :
    IsBody body → IsClosing rest → firstOf (body ++ rest) = some start → A.At w origin es spent →
      es = before ++ (body ++ rest) →
      2 * weight (itemsOf (body ++ rest)) < bound →
      spent + A.due false (itemsOf (body ++ rest)) = total →
      weight (itemsOf (body ++ rest)) ≤ below →
      A.Pays origin (recur (.operand start)) w total (A.LeavesBody before rest total below)
  expression {origin : Sequence} {w : Workspace} {es before body rest : List Entry}
      {left : Handle} {x : Float} {least spent total below : Nat} :
    IsBody body → IsClosing rest → A.At w origin es spent →
      es = before ++ (left, .number x) :: (body ++ rest) →
      2 * weight (itemsOf (body ++ rest)) < bound →
      spent + A.due true (itemsOf (body ++ rest)) = total →
      GoesBelow least (itemsOf (body ++ rest)) below →
      A.Pays origin (recur (.expression left least)) w total (fun h es' spent' ↦
        h = left ∧ A.LeavesBody before rest total below h es' spent')
  rightOperand {origin : Sequence} {w : Workspace} {es before body rest : List Entry}
      {right : Handle} {y : Float} {priority spent total below : Nat} :
    IsBody body → IsClosing rest → A.At w origin es spent →
      es = before ++ (right, .number y) :: (body ++ rest) →
      2 * weight (itemsOf (body ++ rest)) + 1 < bound →
      spent + A.due true (itemsOf (body ++ rest)) = total →
      weight (itemsOf (body ++ rest)) < below →
      A.Pays origin (recur (.rightOperand right priority)) w total (fun h es' spent' ↦
        h = right ∧ A.LeavesBody before rest total below h es' spent')

variable {recur : Task → Reduction Handle} {bound : Nat}

/-! ## Groups -/

private theorem pays_groupBody {opening closing : Handle} (hrecur : A.Keeps recur bound)
    (hinner : IsBody inner) (hw : A.At w origin es spent)
    (hes : es = before ++ (opening, .opening closing) ::
      (inner ++ (closing, .closing opening) :: after))
    (hbound : 2 * weight (itemsOf (inner ++ (closing, .closing opening) :: after)) + 1 ≤ bound)
    (htotal : spent + A.due false (itemsOf (inner ++ (closing, .closing opening) :: after))
      = total) :
    A.Pays origin (groupBody recur opening) w total (A.Leaves before after total) := by
  have hrest : IsClosing ((closing, .closing opening) :: after) := ⟨closing, opening, after, rfl⟩
  rw [groupBody]
  refine hw.cellAt hes fun w hw ↦ ?_
  refine hw.nextOf hes fun w hw ↦ ?_
  by_cases hempty : inner = []
  · subst hempty
    simp only [List.nil_append, firstOf_cons, if_true]
    exact pays_fail hw (by omega)
  obtain ⟨first, cell, item, later, rfl, -⟩ := exists_cons_of_isBody hinner hempty
  have hfirst := hes.trans (List.append_cons _ _ _)
  have hne : first ≠ closing := ne_closing hw.holds hfirst
  simp only [List.cons_append, firstOf_cons, if_neg hne]
  -- Behind the value of the first operand less is left than the group began with.
  refine (hrecur.operand hinner hrest rfl hw hfirst (by omega) htotal (Nat.le_refl _)).bind
    (Nat.le_refl _) ?_
  rintro value w es spent hw ⟨body, hbody, hweight, x, hes, htotal⟩
  refine (hrecur.expression hbody hrest hw hes (by omega) htotal (.inl hweight)).bind
    (Nat.le_refl _) ?_
  rintro value w es spent hw ⟨rfl, body, hbody, -, x, hes, htotal⟩
  have hgroup := hes.trans (List.append_cons _ _ _).symm
  refine ensures_closeGroup hbody hw hgroup (fun w _ _ _ _ hw ↦ ?_) fun w hempty hw ↦ ?_
  · exact .error hw (by omega)
  · subst hempty
    rw [List.nil_append, itemsOf_closing, A.due_closing] at htotal
    exact .value hw ⟨x, rfl, htotal⟩

/-! ## Operands -/

private theorem pays_application (hrecur : A.Keeps recur bound) {name : String}
    (hbody : IsBody body) (hrest : IsClosing rest) (hw : A.At w origin es spent)
    (hes : es = before ++ (h, .function name) :: (body ++ rest))
    (hbound : 2 * weight (.function name :: itemsOf (body ++ rest)) ≤ bound)
    (htotal : spent + A.due false (.function name :: itemsOf (body ++ rest)) = total)
    (hbelow : weight (.function name :: itemsOf (body ++ rest)) ≤ below) :
    A.Pays origin (applicationBody recur h name) w total
      (A.LeavesBody before rest total below) := by
  have hfirst := hes.trans (List.append_cons _ _ _)
  rw [applicationBody]
  refine hw.nextOf hes fun w hw ↦ ?_
  cases hbody with
  | nil =>
    obtain ⟨closing, opening, after, rfl⟩ := hrest
    refine hw.cellAt hfirst fun w hw ↦ ?_
    exact pays_fail hw (by omega)
  | @cons next c body hc hbody =>
    refine hw.cellAt hfirst fun w hw ↦ ?_
    cases c with
    | opening partner => cases hc
    | _ => exact pays_fail hw (by omega)
  | @group opening closing inner body hinner hbody =>
    have hgroup : es = (before ++ [(h, .function name)]) ++ (opening, .opening closing) ::
        (inner ++ (closing, .closing opening) :: (body ++ rest)) := by simpa using hfirst
    have hitems : itemsOf
          ((opening, .opening closing) :: (inner ++ (closing, .closing opening) :: body) ++ rest)
        = .opening :: itemsOf (inner ++ (closing, .closing opening) :: (body ++ rest)) := by
      simp
    have hname : (Item.function name).weight = 1 := rfl
    have hopening : Item.opening.weight = 1 := rfl
    rw [hitems, weight_cons, weight_cons] at hbound hbelow
    rw [hitems] at htotal
    have hdue := A.due_function name 0 0
      (.opening :: itemsOf (inner ++ (closing, .closing opening) :: (body ++ rest)))
    rw [A.due_opening] at hdue
    refine hw.cellAt hgroup fun w hw ↦ ?_
    refine (hrecur.group hinner hw hgroup (by omega) rfl).bind (by omega) ?_
    rintro argument w es spent' hw ⟨x, hes, hspent'⟩
    refine hw.number hes fun w hw ↦ ?_
    refine ensures_compute (fun _ _ ↦ .error hw (by omega)) fun y hy ↦ ?_
    have hfunction := hes.trans (List.append_cons _ _ _).symm
    have hx : (Cell.number x).isPlain := isFinite_of_holds hw.holds hes
    refine hw.report fun w hw ↦ ?_
    refine hw.set hfunction rfl (Computation.isFinite_of_value hy) fun w hw ↦ ?_
    refine hw.remove (List.append_cons _ _ _) (.inl hx) fun w hw ↦ ?_
    have hdue' := A.due_function name x y
      (.opening :: itemsOf (inner ++ (closing, .closing opening) :: (body ++ rest)))
    rw [A.due_opening] at hdue'
    refine pays_pure hw ⟨body, hbody, ?_, y, (List.append_cons _ _ _).symm, by omega⟩
    rw [itemsOf_append, weight_append, itemsOf_closing, weight_cons] at hbelow
    omega

private theorem pays_negate (hbody : IsBody body) (hrest : IsClosing rest)
    (hw : A.At w origin es spent) (hes : es = before ++ (h, .operator '-') :: (body ++ rest))
    (htotal : spent + A.due false (.operator '-' :: itemsOf (body ++ rest)) = total)
    (hbelow : weight (.operator '-' :: itemsOf (body ++ rest)) ≤ below) :
    A.Pays origin (negate h) w total (A.LeavesBody before rest total below) := by
  have hrun := weight_minusRun true (itemsOf (body ++ rest))
  have hminus : (Item.operator '-').weight = 2 := rfl
  have hproduct : (Item.operator '*').weight = 1 := rfl
  rw [weight_cons, hminus] at hbelow
  rw [← bind_pure (negate h)]
  refine (answers_negate hbody hrest hw hes).bind ?_
  rintro _ w es spent' hw ⟨rfl, odd, body', fresh, hbody', hes, hitems, hdue⟩
  rw [hitems] at hrun
  dsimp only at hrun
  refine pays_pure hw ⟨(fresh, .operator '*') :: body', .cons rfl hbody', ?_, _, hes, ?_⟩
  · rw [List.cons_append, itemsOf_operator, weight_cons, hproduct]
    omega
  · rw [List.cons_append, itemsOf_operator]
    omega

private theorem pays_operandBody (hrecur : A.Keeps recur bound) {start : Handle}
    (hbody : IsBody body) (hrest : IsClosing rest) (hstart : firstOf (body ++ rest) = some start)
    (hw : A.At w origin es spent) (hes : es = before ++ (body ++ rest))
    (hbound : 2 * weight (itemsOf (body ++ rest)) ≤ bound)
    (htotal : spent + A.due false (itemsOf (body ++ rest)) = total)
    (hbelow : weight (itemsOf (body ++ rest)) ≤ below) :
    A.Pays origin (operandBody recur start) w total (A.LeavesBody before rest total below) := by
  rw [operandBody]
  cases hbody with
  | nil =>
    obtain ⟨closing, opening, after, rfl⟩ := hrest
    cases hstart
    refine hw.cellAt hes fun w hw ↦ ?_
    exact hw.missingOperand hes fun w hw ↦ .error hw (by omega)
  | @cons next c body hc hbody =>
    cases hstart
    refine hw.cellAt hes fun w hw ↦ ?_
    cases c with
    | number x =>
      have hnumber : (Item.number x).weight = 1 := rfl
      rw [List.cons_append, itemsOf_number, weight_cons] at hbelow
      rw [List.cons_append, itemsOf_number, A.due_number] at htotal
      exact pays_pure hw ⟨body, hbody, by omega, x, hes, htotal⟩
    | function name => exact pays_application hrecur hbody hrest hw hes hbound htotal hbelow
    | operator symbol =>
      by_cases hsymbol : symbol = '-'
      · subst hsymbol
        exact pays_negate hbody hrest hw hes htotal hbelow
      · split
        · next heq => cases heq
        · next heq => cases heq
        · next heq => cases heq
        · next heq => exact absurd (Cell.operator.inj heq) hsymbol
        · exact hw.missingOperand hes fun w hw ↦ .error hw (by omega)
    | lexeme token => cases hc
    | opening partner => cases hc
    | closing partner => cases hc
  | @group opening closing inner body hinner hbody =>
    cases hstart
    have hgroup : es = before ++ (opening, .opening closing) ::
        (inner ++ (closing, .closing opening) :: (body ++ rest)) := by simpa using hes
    have hitems : itemsOf
          ((opening, .opening closing) :: (inner ++ (closing, .closing opening) :: body) ++ rest)
        = .opening :: itemsOf (inner ++ (closing, .closing opening) :: (body ++ rest)) := by
      simp
    have hopening : Item.opening.weight = 1 := rfl
    rw [hitems, weight_cons] at hbound hbelow
    rw [hitems, A.due_opening] at htotal
    refine hw.cellAt hgroup fun w hw ↦ ?_
    rw [← bind_pure (recur _)]
    refine (hrecur.group hinner hw hgroup (by omega) htotal).bind (Nat.le_refl _) ?_
    rintro value w es spent hw hleaves
    refine pays_pure hw ⟨body, hbody, ?_, hleaves⟩
    rw [itemsOf_append, weight_append, itemsOf_closing, weight_cons] at hbelow
    omega

/-! ## Expressions and right operands -/

/-- Where an expression ends at once, nothing is taken, and that must be light enough. -/
theorem GoesBelow.weight_lt {least : Nat} {items : List Item} (h : GoesBelow least items below)
    (hend : ∀ p, leading items = some p → p < least) : weight items < below := by
  rcases h with h | ⟨-, p, hp, hleast⟩
  · exact h
  · exact absurd (hend p hp) (Nat.not_lt.mpr hleast)

theorem GoesBelow.weight_le {least : Nat} {items : List Item} (h : GoesBelow least items below) :
    weight items ≤ below := by
  rcases h with h | ⟨h, -⟩
  · exact Nat.le_of_lt h
  · exact h

private theorem pays_expressionBody (hrecur : A.Keeps recur bound) {left : Handle} {x : Float}
    {least : Nat} (hbody : IsBody body) (hrest : IsClosing rest) (hw : A.At w origin es spent)
    (hes : es = before ++ (left, .number x) :: (body ++ rest))
    (hbound : 2 * weight (itemsOf (body ++ rest)) ≤ bound)
    (htotal : spent + A.due true (itemsOf (body ++ rest)) = total)
    (hbelow : GoesBelow least (itemsOf (body ++ rest)) below) :
    A.Pays origin (expressionBody recur left least) w total (fun h es' spent' ↦
      h = left ∧ A.LeavesBody before rest total below h es' spent') := by
  have hleading := leading_itemsOf hbody hrest
  rw [expressionBody]
  refine hw.operatorAfter hes fun w hw ↦ ?_
  cases hfound : operatorIn (body ++ rest) with
  | none =>
    have hlight := hbelow.weight_lt (by rw [hleading, hfound]; rintro _ ⟨⟩)
    exact pays_pure hw ⟨rfl, body, hbody, hlight, x, hes, htotal⟩
  | some found =>
    obtain ⟨operator, p⟩ := found
    dsimp only
    by_cases hless : p < least
    · have hlight := hbelow.weight_lt (by rw [hleading, hfound]; rintro _ ⟨⟩; exact hless)
      rw [if_pos hless]
      exact pays_pure hw ⟨rfl, body, hbody, hlight, x, hes, htotal⟩
    obtain ⟨symbol, body, rfl, hbody, hp⟩ := exists_of_operatorIn hbody hrest hfound
    have hoperator := hes.trans (List.append_cons _ _ _)
    have hpositive := (Item.operator symbol).weight_pos
    have hheavy := hbelow.weight_le
    have hrun := weight_binaryOperator symbol (itemsOf (body ++ rest))
    rw [List.cons_append, itemsOf_operator, weight_cons] at hbound hheavy
    rw [List.cons_append, itemsOf_operator] at htotal
    -- The price of a combination does not depend on its numbers, which are not known yet.
    have hdue := fun x y z ↦ A.due_operator x y z (itemsOf (body ++ rest)) hp
    rw [if_neg hless]
    refine (answers_collapseMinusRun hbody hrest hw hoperator).bind ?_
    generalize binaryOperator symbol (itemsOf (body ++ rest)) = replaced at hdue hrun ⊢
    obtain ⟨symbol', items'⟩ := replaced
    dsimp only at hdue hrun ⊢
    generalize (if symbol' = symbol then 0 else A.price (.report .binaryMinusRun)) = price
      at hdue ⊢
    have hdue₀ := hdue 0 0 0
    rintro _ w es _ hw ⟨rfl, body', hbody', hes, rfl⟩
    obtain ⟨⟨start, cell, after, hnext⟩, -⟩ := exists_next hrest body'
    have hstart : firstOf (body' ++ rest) = some start := by rw [hnext, firstOf_cons]
    have hoperand := hes.trans (List.append_cons _ _ _)
    refine hw.nextOf hes fun w hw ↦ ?_
    rw [hstart]
    refine (hrecur.operand hbody' hrest hstart hw hoperand (by omega) rfl (Nat.le_refl _)).bind
      (by omega) ?_
    rintro right w es spent₁ hw ⟨body₁, hbody₁, hweight₁, y, hes, hspent₁⟩
    refine (hrecur.rightOperand hbody₁ hrest hw hes (by omega) hspent₁ (Nat.lt_succ_self _)).bind
      (by omega) ?_
    rintro right w es spent₂ hw ⟨rfl, body₂, hbody₂, hweight₂, y, hes, hspent₂⟩
    have hcombine : es = before ++ (left, .number x) :: (operator, .operator symbol') ::
        (right, .number y) :: (body₂ ++ rest) := by simpa using hes
    refine hw.combine hcombine (fun _ _ _ hw ↦ .error hw (by omega)) fun z w _ hw ↦ ?_
    have hduez := hdue x y z
    exact hrecur.expression hbody₂ hrest hw rfl (by omega) (by omega) (.inl (by omega))

private theorem pays_rightOperandBody (hrecur : A.Keeps recur bound) {right : Handle} {y : Float}
    {p : Nat} (hbody : IsBody body) (hrest : IsClosing rest) (hw : A.At w origin es spent)
    (hes : es = before ++ (right, .number y) :: (body ++ rest))
    (hbound : 2 * weight (itemsOf (body ++ rest)) + 1 ≤ bound)
    (htotal : spent + A.due true (itemsOf (body ++ rest)) = total)
    (hbelow : weight (itemsOf (body ++ rest)) < below) :
    A.Pays origin (rightOperandBody recur right p) w total (fun h es' spent' ↦
      h = right ∧ A.LeavesBody before rest total below h es' spent') := by
  have hleading := leading_itemsOf hbody hrest
  rw [rightOperandBody]
  refine hw.operatorAfter hes fun w hw ↦ ?_
  cases hfound : operatorIn (body ++ rest) with
  | none => exact pays_pure hw ⟨rfl, body, hbody, hbelow, y, hes, htotal⟩
  | some found =>
    obtain ⟨operator, q⟩ := found
    dsimp only
    split
    · -- The expression takes the operator that it begins with.
      have hbelow' : GoesBelow q (itemsOf (body ++ rest)) (weight (itemsOf (body ++ rest))) :=
        .inr ⟨Nat.le_refl _, q, by rw [hleading, hfound]; rfl, Nat.le_refl _⟩
      refine (hrecur.expression hbody hrest hw hes (by omega) htotal hbelow').bind
        (Nat.le_refl _) ?_
      rintro _ w es spent hw ⟨rfl, body', hbody', hweight, y, hes, htotal⟩
      exact hrecur.rightOperand hbody' hrest hw hes (by omega) htotal (by omega)
    · exact pays_pure hw ⟨rfl, body, hbody, hbelow, y, hes, htotal⟩

/-! ## All tasks -/

theorem ensures_performBelow {task : Task} {post : Except Fault Handle → Workspace → Prop}
    {weight : Nat} (hweight : task.weight w.sequence = weight) (hbound : weight < bound)
    (h : Ensures (note (.start task) >>= fun _ ↦ bodyOf (performBelow weight) task) w post) :
    Ensures (performBelow bound task) w post := by
  rw [Ensures, run_performBelow, hweight, if_pos hbound]
  exact h

/-- **No task below its bound is refused, and each keeps the account.** -/
theorem keeps_performBelow (A : Account) (bound : Nat) : A.Keeps (performBelow bound) bound := by
  -- A task calls others with its own weight as their bound.
  induction bound using Nat.strongRecOn with
  | ind bound ih =>
    constructor
    · intro origin w es before inner after opening closing spent total hinner hw hes hbound htotal
      have hweight : Task.weight w.sequence (.group opening) = _ :=
        congrArg (2 * · + 1) (hw.represents.weightBehind_eq hes)
      refine ensures_performBelow hweight hbound ?_
      refine hw.start ⟨before, inner, closing, after, hinner, hes⟩ fun w hw ↦ ?_
      exact pays_groupBody (ih _ hbound) hinner hw hes (Nat.le_refl _) htotal
    · intro origin w es before body rest start spent total below hbody hrest hstart hw hes hbound
        htotal hbelow
      have hweight : Task.weight w.sequence (.operand start) = _ :=
        congrArg (2 * ·) (hstart ▸ hw.represents.weightFrom_eq hes)
      refine ensures_performBelow hweight hbound ?_
      refine hw.start ⟨before, body, rest, hbody, hrest, hstart, hes⟩ fun w hw ↦ ?_
      exact pays_operandBody (ih _ hbound) hbody hrest hstart hw hes (Nat.le_refl _) htotal hbelow
    · intro origin w es before body rest left x least spent total below hbody hrest hw hes hbound
        htotal hbelow
      have hweight : Task.weight w.sequence (.expression left least) = _ :=
        congrArg (2 * ·) (hw.represents.weightBehind_eq hes)
      refine ensures_performBelow hweight hbound ?_
      refine hw.start ⟨before, x, body, rest, hbody, hrest, hes⟩ fun w hw ↦ ?_
      exact pays_expressionBody (ih _ hbound) hbody hrest hw hes (Nat.le_refl _) htotal hbelow
    · intro origin w es before body rest right y priority spent total below hbody hrest hw hes
        hbound htotal hbelow
      have hweight : Task.weight w.sequence (.rightOperand right priority) = _ :=
        congrArg (2 * · + 1) (hw.represents.weightBehind_eq hes)
      refine ensures_performBelow hweight hbound ?_
      refine hw.start ⟨before, y, body, rest, hbody, hrest, hes⟩ fun w hw ↦ ?_
      exact pays_rightOperandBody (ih _ hbound) hbody hrest hw hes (Nat.le_refl _) htotal hbelow

end Account

end Reduction

end Calculator
