import Calculator.Proofs.Reduction.Account

/-!
# The parts of a task

What a task does between its calls: look for an operator, take minus signs out, combine two numbers,
close a group. Each part is run once, with the entries and the price that it leaves, for every
account and for whatever is to be shown of the task around it.
-/

namespace Calculator

namespace Reduction

open Sequence Climbing

variable {A : Account} {origin : Sequence} {w : Workspace}
  {es before body after rest : List Entry} {h : Handle} {cell : Cell} {spent : Nat}

/-! ## Entries of a group -/

/-- Before the closing parenthesis of a group there is always a next cell, and a next item. -/
theorem exists_next (hrest : IsClosing rest) (body : List Entry) :
    (∃ next cell after, body ++ rest = (next, cell) :: after) ∧
      ∃ item items, itemsOf (body ++ rest) = item :: items := by
  obtain ⟨closing, opening, after, rfl⟩ := hrest
  refine ⟨?_, List.exists_cons_of_ne_nil (by simp)⟩
  obtain ⟨⟨next, cell⟩, after, hnext⟩ := List.exists_cons_of_ne_nil
    (List.append_ne_nil_of_right_ne_nil body (List.cons_ne_nil (closing, .closing opening) after))
  exact ⟨next, cell, after, hnext⟩

theorem isFinite_of_holds {x : Float} {after : List Entry} (hw : w.Holds origin es)
    (hes : es = before ++ (h, .number x) :: after) : x.isFinite :=
  hw.settled (h, .number x) (by simp [hes])

/-- The handle before a group's closing parenthesis is not that of the parenthesis. -/
theorem ne_closing {next opening closing : Handle} {cell : Cell} {mid : List Entry}
    (hw : w.Holds origin es)
    (hes : es = before ++ (next, cell) :: (mid ++ (closing, .closing opening) :: after)) :
    next ≠ closing := by
  rintro rfl
  have hnot := hw.represents.not_mem_handlesOf hes
  simp at hnot

/-- A body that is not empty begins with no closing parenthesis, on lists and in the sequence. -/
theorem exists_cons_of_isBody (hbody : IsBody body) (hne : body ≠ []) :
    ∃ next cell item later, body = (next, cell) :: later ∧ cell.item? = some item ∧
      item ≠ .closing := by
  cases hbody with
  | nil => exact absurd rfl hne
  | @cons h cell later hcell _ =>
    cases cell with
    | number x => exact ⟨_, _, _, _, rfl, rfl, by simp⟩
    | operator symbol => exact ⟨_, _, _, _, rfl, rfl, by simp⟩
    | function name => exact ⟨_, _, _, _, rfl, rfl, by simp⟩
    | lexeme token => cases hcell
    | opening partner => cases hcell
    | closing partner => cases hcell
  | group _ _ => exact ⟨_, _, _, _, rfl, rfl, by simp⟩

/-- When a group is closed, the partner of its closing parenthesis is out of the sequence. -/
theorem removable_closing {opening closing value : Handle} {x : Float} (hw : w.Holds origin es)
    (hes : es = before ++ (opening, .opening closing) :: (value, .number x) ::
      (closing, .closing opening) :: after) :
    Removable (.closing opening) (before ++ [(value, .number x)] ++ after) := by
  refine .inr (.inr ⟨opening, rfl, fun hmem ↦ ?_⟩)
  have hnot := hw.represents.not_mem_handlesOf hes
  simp_all

/-- The operator that entries begin with, with its priority. -/
def operatorIn : List Entry → Option (Handle × Nat)
  | (h, .operator symbol) :: _ => (priority symbol).map fun p ↦ (h, p)
  | _ => none

theorem exists_of_operatorIn_eq {operator : Handle} {p : Nat}
    (hoperator : operatorIn after = some (operator, p)) :
    ∃ symbol later, after = (operator, .operator symbol) :: later ∧ priority symbol = some p := by
  rcases after with _ | ⟨⟨next, c⟩, after⟩
  · cases hoperator
  · cases c with
    | operator symbol =>
      obtain ⟨p', hp, heq⟩ := Option.map_eq_some_iff.mp hoperator
      cases heq
      exact ⟨symbol, after, rfl, hp⟩
    | _ => cases hoperator

theorem leading_itemsOf (hbody : IsBody body) (hrest : IsClosing rest) :
    leading (itemsOf (body ++ rest)) = (operatorIn (body ++ rest)).map Prod.snd := by
  obtain ⟨closing, opening, after, rfl⟩ := hrest
  cases hbody with
  | nil => rfl
  | @cons next c body hc hbody =>
    cases c with
    | operator symbol => simp [leading, operatorIn, Option.map_map, Function.comp_def]
    | number x => rfl
    | function name => rfl
    | lexeme token => cases hc
    | opening partner => cases hc
    | closing partner => cases hc
  | group _ _ => rfl

theorem exists_of_operatorIn {operator : Handle} {p : Nat} (hbody : IsBody body)
    (hrest : IsClosing rest) (hoperator : operatorIn (body ++ rest) = some (operator, p)) :
    ∃ symbol later, body = (operator, .operator symbol) :: later ∧ IsBody later ∧
      priority symbol = some p := by
  obtain ⟨symbol, later, hsplit, hp⟩ := exists_of_operatorIn_eq hoperator
  obtain ⟨closing, opening, after, rfl⟩ := hrest
  cases hbody with
  | nil => cases hsplit
  | @cons next c body hc hbody =>
    obtain ⟨⟨⟩, -⟩ := List.cons.inj hsplit
    exact ⟨symbol, body, rfl, hbody, hp⟩
  | group _ _ => cases hsplit

/-! ## Looking -/

/-- Looking for an operator changes nothing but the history, whatever is done with it then. -/
theorem run_operatorAfter (hs : w.sequence.Represents es)
    (hes : es = before ++ (h, cell) :: after) :
    ∃ history, ∀ {α : Type} (f : Option (Handle × Nat) → Reduction α),
      (operatorAfter h >>= f).run.run w
        = (f (operatorIn after)).run.run ⟨w.sequence, history⟩ := by
  rcases after with _ | ⟨⟨next, c⟩, after⟩
  · refine ⟨.look h :: w.history, fun f ↦ ?_⟩
    rw [operatorAfter, bind_assoc, run_nextOf hs hes]
    rfl
  · refine ⟨.look next :: .look h :: w.history, fun f ↦ ?_⟩
    have hs' : (⟨w.sequence, .look h :: w.history⟩ : Workspace).sequence.Represents es := hs
    rw [operatorAfter, bind_assoc, run_nextOf hs hes, firstOf_cons]
    dsimp only
    rw [bind_assoc, run_cellAt hs' (hes.trans (List.append_cons _ _ _))]
    cases c <;> rfl

namespace Account

theorem At.number {α : Type} {x : Float} {f : Float → Reduction α}
    {post : Except Fault α → Workspace → Prop} (hw : A.At w origin es spent)
    (hes : es = before ++ (h, .number x) :: after)
    (hf : ∀ w', A.At w' origin es spent → Ensures (f x) w' post) :
    Ensures (number h >>= f) w post := by
  rw [Reduction.number, bind_assoc]
  exact hw.cellAt hes hf

theorem At.operatorAfter {α : Type} {f : Option (Handle × Nat) → Reduction α}
    {post : Except Fault α → Workspace → Prop} (hw : A.At w origin es spent)
    (hes : es = before ++ (h, cell) :: after)
    (hf : ∀ w', A.At w' origin es spent → Ensures (f (operatorIn after)) w' post) :
    Ensures (operatorAfter h >>= f) w post := by
  rw [Reduction.operatorAfter, bind_assoc]
  refine hw.nextOf hes fun w hw ↦ ?_
  rcases after with _ | ⟨⟨next, c⟩, after⟩
  · exact hf w hw
  rw [firstOf_cons]
  dsimp only
  rw [bind_assoc]
  refine hw.cellAt (hes.trans (List.append_cons _ _ _)) fun w hw ↦ ?_
  cases c <;> exact hf w hw

theorem At.missingOperand {α : Type} {post : Except Fault α → Workspace → Prop}
    (hw : A.At w origin es spent) (hes : es = before ++ (h, cell) :: after)
    (herror : ∀ w', A.At w' origin es spent →
      post (.error (.error (.missingOperand (if after = [] then none else some cell.text)))) w') :
    Ensures (missingOperand h) w post := by
  rw [Reduction.missingOperand]
  refine hw.nextOf hes fun w hw ↦ ?_
  cases after with
  | nil => exact herror w hw
  | cons e after =>
    refine hw.cellAt hes fun w hw ↦ ?_
    exact herror w hw

/-! ## Minus signs -/

/-- What is left after a run of minus signs was taken out behind a cell, at no price. -/
def Cleared (before rest : List Entry) (h : Handle) (cell : Cell) (spent : Nat)
    (run : Bool × List Item) (odd : Bool) (es : List Entry) (spent' : Nat) : Prop :=
  spent = spent' ∧ ∃ body, IsBody body ∧ es = before ++ (h, cell) :: (body ++ rest) ∧
    run = (odd, itemsOf (body ++ rest))

private theorem answers_dropMinusSigns (hrest : IsClosing rest) {limit : Nat} :
    ∀ {body : List Entry} {odd : Bool} {w : Workspace} {es : List Entry}, IsBody body →
      body.length < limit → A.At w origin es spent →
      es = before ++ (h, cell) :: (body ++ rest) →
      A.Answers origin (dropMinusSigns h limit odd) w
        (Cleared before rest h cell spent (minusRun odd (itemsOf (body ++ rest)))) := by
  obtain ⟨closing, opening, after, rfl⟩ := hrest
  -- The bound counts slots, and a sequence has at least as many of them as cells in the body.
  induction limit with
  | zero => exact fun _ hlimit ↦ absurd hlimit (Nat.not_lt_zero _)
  | succ limit ih =>
    intro body odd w es hbody hlimit hw hes
    have hes' := hes.trans (List.append_cons before (h, cell) _)
    rw [dropMinusSigns]
    refine hw.nextOf hes fun w hw ↦ ?_
    cases hbody with
    | nil =>
      refine hw.cellAt hes' fun w hw ↦ ?_
      exact answers_pure hw ⟨rfl, [], .nil, hes, rfl⟩
    | @cons next c body hc hbody =>
      refine hw.cellAt hes' fun w hw ↦ ?_
      cases c with
      | number x => exact answers_pure hw ⟨rfl, _, .cons hc hbody, hes, rfl⟩
      | function name => exact answers_pure hw ⟨rfl, _, .cons hc hbody, hes, rfl⟩
      | operator symbol =>
        by_cases hsymbol : symbol = '-'
        · subst hsymbol
          refine hw.remove hes' (.inl hc) fun w hw ↦ ?_
          have hlimit' : body.length < limit := Nat.lt_of_succ_lt_succ hlimit
          exact ih hbody hlimit' hw (List.append_cons _ _ _).symm
        · have hoperator : Item.operator symbol ≠ .operator '-' :=
            fun heq ↦ hsymbol (Item.operator.inj heq)
          have hrun := minusRun_cons hoperator odd
            (itemsOf (body ++ (closing, .closing opening) :: after))
          split
          · next hminus =>
            cases hminus
            exact absurd rfl hsymbol
          · exact answers_pure hw ⟨rfl, _, .cons hc hbody, hes, hrun⟩
      | lexeme token => cases hc
      | opening partner => cases hc
      | closing partner => cases hc
    | @group o c inner body hinner hbody =>
      refine hw.cellAt hes' fun w hw ↦ ?_
      exact answers_pure hw ⟨rfl, _, .group hinner hbody, hes, rfl⟩

private theorem answers_dropMinusRun (hbody : IsBody body) (hrest : IsClosing rest)
    (hw : A.At w origin es spent) (hes : es = before ++ (h, cell) :: (body ++ rest)) :
    A.Answers origin (dropMinusRun h) w
      (Cleared before rest h cell spent (minusRun true (itemsOf (body ++ rest)))) := by
  rw [dropMinusRun]
  refine ensures_get ?_
  have hsize := hw.represents.length_le_size
  have hlimit : body.length < w.sequence.slots.size + 1 := by
    rw [hes, List.length_append, List.length_cons, List.length_append] at hsize
    omega
  exact answers_dropMinusSigns hrest hbody hlimit hw hes

/-- What is left where a run of minus signs was made a factor: its sign, a product, and what was
behind the run. -/
def Signed (A : Account) (before rest : List Entry) (h : Handle) (spent : Nat)
    (items : List Item) (h' : Handle) (es : List Entry) (spent' : Nat) : Prop :=
  h' = h ∧ ∃ odd body fresh, IsBody body ∧
    es = before ++ (h, .number (if odd then -1.0 else 1.0)) ::
      ((fresh, .operator '*') :: body ++ rest) ∧
    minusRun true items = (odd, itemsOf (body ++ rest)) ∧
    spent' + A.due true (.operator '*' :: itemsOf (body ++ rest))
      = spent + A.due false (.operator '-' :: items)

/-- A run of minus signs in front of an operand becomes a factor; the multiplication is put in front
of whatever follows the run, which may be the closing parenthesis. -/
theorem answers_negate (hbody : IsBody body) (hrest : IsClosing rest)
    (hw : A.At w origin es spent) (hes : es = before ++ (h, .operator '-') :: (body ++ rest)) :
    A.Answers origin (negate h) w (A.Signed before rest h spent (itemsOf (body ++ rest))) := by
  rw [negate]
  refine (answers_dropMinusRun hbody hrest hw hes).bind ?_
  rintro odd w es _ hw ⟨rfl, body', hbody', hes, hrun⟩
  obtain ⟨⟨next, cell, after, hnext⟩, -⟩ := exists_next hrest body'
  have hes' := hes.trans (by rw [hnext])
  have hdue := A.due_factor next (if odd then -1.0 else 1.0) (itemsOf (body ++ rest))
  rw [hrun] at hdue
  dsimp only at hdue
  refine hw.nextOf hes' fun w hw ↦ ?_
  refine hw.report fun w hw ↦ ?_
  refine hw.set hes' rfl (isFinite_sign odd) fun w hw ↦ ?_
  refine hw.insertBefore (List.append_cons _ _ _) rfl fun w fresh hw ↦ ?_
  refine answers_pure hw ⟨rfl, odd, body', fresh, hbody', ?_, hrun, ?_⟩
  · simp [hnext]
  · dsimp only
    omega

/-- What is left where a run of minus signs was made one operator. -/
def Operated (before rest : List Entry) (h : Handle) (total : Nat) (answer : Char × List Item)
    (es : List Entry) (spent : Nat) : Prop :=
  total = spent ∧ ∃ body, IsBody body ∧
    es = before ++ (h, .operator answer.1) :: (body ++ rest) ∧ answer.2 = itemsOf (body ++ rest)

theorem answers_collapseMinusRun {symbol : Char} (hbody : IsBody body) (hrest : IsClosing rest)
    (hw : A.At w origin es spent)
    (hes : es = before ++ (h, .operator symbol) :: (body ++ rest)) :
    A.Answers origin (collapseMinusRun h) w fun _ ↦ Operated before rest h
      (spent + if (binaryOperator symbol (itemsOf (body ++ rest))).1 = symbol then 0
        else A.price (.report .binaryMinusRun))
      (binaryOperator symbol (itemsOf (body ++ rest))) := by
  rw [collapseMinusRun]
  refine hw.cellAt hes fun w hw ↦ ?_
  by_cases hsymbol : symbol = '-'
  · subst hsymbol
    refine (answers_dropMinusRun hbody hrest hw hes).bind ?_
    rintro odd w es _ hw ⟨rfl, body', hbody', hes, hrun⟩
    have hoperator : binaryOperator '-' (itemsOf (body ++ rest))
        = (if odd then '-' else '+', itemsOf (body' ++ rest)) := by
      rw [binaryOperator, if_pos rfl, hrun]
    rw [hoperator]
    cases odd with
    | true => exact answers_pure hw ⟨rfl, body', hbody', hes, rfl⟩
    | false =>
      refine hw.report fun w hw ↦ ?_
      rw [← bind_pure (edit _)]
      refine hw.set hes rfl rfl fun w hw ↦ ?_
      exact answers_pure hw ⟨rfl, body', hbody', rfl, rfl⟩
  · have hoperator : binaryOperator symbol (itemsOf (body ++ rest))
        = (symbol, itemsOf (body ++ rest)) := if_neg hsymbol
    rw [hoperator, if_pos rfl]
    split
    · next hminus =>
      cases hminus
      exact absurd rfl hsymbol
    · exact answers_pure hw ⟨rfl, body, hbody, hes, rfl⟩

/-! ## Combining -/

theorem At.combine {α : Type} {left operator right : Handle} {x y : Float} {symbol : Char}
    {f : Handle → Reduction α} {post : Except Fault α → Workspace → Prop}
    (hw : A.At w origin es spent)
    (hes : es = before ++ (left, .number x) :: (operator, .operator symbol) ::
      (right, .number y) :: after)
    (herror : ∀ cause w', (Computation.combination x symbol y).value = .error cause →
      A.At w' origin es spent → post (.error (.error cause)) w')
    (hvalue : ∀ z w', (Computation.combination x symbol y).value = .ok z →
      A.At w' origin (before ++ (left, .number z) :: after)
        (spent + A.price (.report (.combination x symbol y z))) → Ensures (f left) w' post) :
    Ensures (combine left operator right >>= f) w post := by
  have hoperator := hes.trans (List.append_cons _ _ _)
  have hright := hoperator.trans (List.append_cons _ _ _)
  have hx : (Cell.number x).isPlain := isFinite_of_holds hw.holds hes
  have hy : (Cell.number y).isPlain := isFinite_of_holds hw.holds hright
  rw [Reduction.combine, bind_assoc]
  refine hw.number hes fun w hw ↦ ?_
  rw [bind_assoc]
  refine hw.number hright fun w hw ↦ ?_
  rw [bind_assoc]
  refine hw.cellAt hoperator fun w hw ↦ ?_
  simp only [bind_assoc]
  refine ensures_compute (fun cause hcause ↦ herror cause w hcause hw) fun z hz ↦ ?_
  refine hw.report fun w hw ↦ ?_
  refine hw.set hes hx (Computation.isFinite_of_value hz) fun w hw ↦ ?_
  refine hw.remove (List.append_cons _ _ _) (.inl rfl) fun w hw ↦ ?_
  refine hw.remove rfl (.inl hy) fun w hw ↦ ?_
  rw [← List.append_cons] at hw
  exact hvalue z w hz hw

/-! ## Closing a group -/

/-- The end of a group: only a number may be left in it. -/
theorem ensures_closeGroup {opening closing value : Handle} {x : Float}
    {post : Except Fault Handle → Workspace → Prop} (hbody : IsBody body)
    (hw : A.At w origin es spent)
    (hes : es = before ++ (opening, .opening closing) :: (value, .number x) ::
      (body ++ (closing, .closing opening) :: after))
    (herror : ∀ w' item items,
      itemsOf (body ++ (closing, .closing opening) :: after) = item :: items →
      item ≠ .closing → A.At w' origin es spent →
      post (.error (.error (.unexpectedToken item.text))) w')
    (hvalue : ∀ w', body = [] → A.At w' origin (before ++ (value, .number x) :: after) spent →
      post (.ok value) w') :
    Ensures
      (do
        match ← nextOf value with
        | none => fail .unclosedGroup
        | some next =>
          if next = closing then
            edit (.remove opening)
            edit (.remove closing)
            return value
          else fail (.unexpectedToken (← cellAt next).text))
      w post := by
  have hnumber := hes.trans (List.append_cons _ _ _)
  have hnext := hnumber.trans (List.append_cons _ _ _)
  refine hw.nextOf hnumber fun w hw ↦ ?_
  by_cases hempty : body = []
  · subst hempty
    simp only [List.nil_append, firstOf_cons, if_true]
    have hremovable := removable_closing hw.holds hes
    refine hw.remove hes (.inr (.inl ⟨closing, rfl⟩)) fun w hw ↦ ?_
    refine hw.remove (List.append_cons _ _ _) hremovable fun w hw ↦ ?_
    rw [← List.append_cons] at hw
    exact hvalue w rfl hw
  · obtain ⟨next, cell, item, later, rfl, hitem, hclosing⟩ := exists_cons_of_isBody hbody hempty
    have hne : next ≠ closing := ne_closing hw.holds hnext
    simp only [List.cons_append, firstOf_cons, if_neg hne]
    refine hw.cellAt hnext fun w hw ↦ ?_
    rw [← Cell.text_of_item? hitem]
    exact herror w item _ (itemsOf_cons_of_item? hitem) hclosing hw

end Account

end Reduction

end Calculator
