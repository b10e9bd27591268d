import Calculator.Proofs.Reduction.Simulation

/-!
# The tasks, one nesting deeper

The body of each task follows its counterpart on lists if the tasks that it calls do, one level
deeper. By induction on the depth so do the tasks themselves.
-/

namespace Calculator

namespace Reduction

open Sequence Climbing

/-- What is left after a group: a number in the place of the whole group. -/
def Collapsed (before after : List Entry) (h : Handle) (answer : Float × List Item)
    (es : List Entry) : Prop :=
  es = before ++ (h, .number answer.1) :: after ∧ answer.2 = itemsOf after

/-- A way to do tasks does each of them as the function of the same name does on lists. -/
structure Follows (recur : Task → Reduction Handle) (depth : Nat) : Prop where
  group {origin : Sequence} {w : Workspace} {es before inner after : List Entry}
      {opening closing : Handle} :
    IsBody inner → w.Holds origin es →
      es = before ++ (opening, .opening closing) ::
        (inner ++ (closing, .closing opening) :: after) →
      Simulates origin (recur (.group opening)) w (Collapsed before after)
        (Climbing.group depth (itemsOf (inner ++ (closing, .closing opening) :: after)))
  operand {origin : Sequence} {w : Workspace} {es before body rest : List Entry} {start : Handle} :
    IsBody body → IsClosing rest → firstOf (body ++ rest) = some start → w.Holds origin es →
      es = before ++ (body ++ rest) →
      Simulates origin (recur (.operand start)) w (Reduced before rest)
        (Climbing.operand depth (itemsOf (body ++ rest)))
  expression {origin : Sequence} {w : Workspace} {es before body rest : List Entry}
      {left : Handle} {x : Float} {least : Nat} :
    IsBody body → IsClosing rest → w.Holds origin es →
      es = before ++ (left, .number x) :: (body ++ rest) →
      Simulates origin (recur (.expression left least)) w
        (fun h answer es' ↦ h = left ∧ Reduced before rest h answer es')
        (Climbing.expression depth x least (itemsOf (body ++ rest)))
  rightOperand {origin : Sequence} {w : Workspace} {es before body rest : List Entry}
      {right : Handle} {y : Float} {priority : Nat} :
    IsBody body → IsClosing rest → w.Holds origin es →
      es = before ++ (right, .number y) :: (body ++ rest) →
      Simulates origin (recur (.rightOperand right priority)) w
        (fun h answer es' ↦ h = right ∧ Reduced before rest h answer es')
        (Climbing.rightOperand depth y priority (itemsOf (body ++ rest)))

variable {recur : Task → Reduction Handle} {depth : Nat} {origin : Sequence} {w : Workspace}
  {es before body inner after rest : List Entry}

/-! ## Groups -/

/-- The end of a group: only a number may be left in it. -/
theorem simulates_closeGroup {opening closing value : Handle} {x : Float} (hbody : IsBody body)
    (hw : w.Holds origin es)
    (hes : es = before ++ (opening, .opening closing) :: (value, .number x) ::
      (body ++ (closing, .closing opening) :: after)) :
    Simulates origin
      (do
        match ← nextOf value with
        | none => fail .unclosedGroup
        | some next =>
          if next = closing then
            edit (.remove opening)
            edit (.remove closing)
            return value
          else fail (.unexpectedToken (← cellAt next).text))
      w (Collapsed before after)
      (match itemsOf (body ++ (closing, .closing opening) :: after) with
        | .closing :: items => return (x, items)
        | item :: _ => throw (.unexpectedToken item.text)
        | [] => throw .unclosedGroup) := by
  refine Account.ensures_closeGroup hbody (Account.at_free hw) hes
    (fun w item items hitems hclosing hw ↦ ?_) fun w hempty hw ↦ ?_
  · rw [hitems]
    cases item with
    | closing => exact absurd rfl hclosing
    | _ => exact .error hw.holds
  · subst hempty
    exact simulates_pure hw.holds ⟨rfl, rfl⟩

private theorem follows_groupBody (hrecur : Follows recur depth) {opening closing : Handle}
    (hinner : IsBody inner) (hw : w.Holds origin es)
    (hes : es = before ++ (opening, .opening closing) ::
      (inner ++ (closing, .closing opening) :: after)) :
    Simulates origin (groupBody recur opening) w (Collapsed before after)
      (Climbing.group (depth + 1) (itemsOf (inner ++ (closing, .closing opening) :: after))) := by
  rw [groupBody]
  refine ensures_cellAt hw hes fun w hw ↦ ?_
  refine ensures_nextOf hw hes fun w hw ↦ ?_
  by_cases hempty : inner = []
  · subst hempty
    simp only [List.nil_append, firstOf_cons, if_true]
    exact simulates_fail hw
  obtain ⟨next, cell, item, later, rfl, hitem, hclosing⟩ := exists_cons_of_isBody hinner hempty
  have hfirst := hes.trans (List.append_cons _ _ _)
  have hne : next ≠ closing := ne_closing hw hfirst
  simp only [List.cons_append, firstOf_cons, if_neg hne, itemsOf_cons_of_item? hitem]
  rw [group_cons hclosing, ← itemsOf_cons_of_item? hitem]
  have hoperand := hrecur.operand hinner ⟨closing, opening, after, rfl⟩ rfl hw hfirst
  refine hoperand.bind ?_
  rintro value ⟨x, _⟩ w es hw ⟨body, hbody, hes, rfl⟩
  refine (hrecur.expression hbody ⟨closing, opening, after, rfl⟩ hw hes).bind ?_
  rintro _ ⟨x, _⟩ w es hw ⟨rfl, body, hbody, hes, rfl⟩
  exact simulates_closeGroup hbody hw (hes.trans (List.append_cons _ _ _).symm)

/-! ## Operands -/

theorem simulates_missingOperand {item : Item} (hitem : cell.item? = some item)
    (hw : w.Holds origin es) (hes : es = before ++ (h, cell) :: after)
    {good : Handle → Float × List Item → List Entry → Prop} :
    Simulates origin (missingOperand h) w good
      (throw (.missingOperand (if itemsOf after = [] then none else some item.text))) := by
  have hsettled : Settled after := fun e he ↦ hw.settled e (by simp [hes, he])
  refine (Account.at_free hw).missingOperand hes fun w hw ↦ ?_
  simp only [itemsOf_eq_nil_iff hsettled, Cell.text_of_item? hitem]
  exact .error hw.holds

/-- A function is applied to the group behind its name. -/
theorem simulates_application (hrecur : Follows recur depth) {name : String}
    (hbody : IsBody body) (hrest : IsClosing rest) (hw : w.Holds origin es)
    (hes : es = before ++ (h, .function name) :: (body ++ rest)) :
    Simulates origin (applicationBody recur h name) w (Reduced before rest)
      (operand (depth + 1) (.function name :: itemsOf (body ++ rest))) := by
  have hfirst := hes.trans (List.append_cons _ _ _)
  rw [applicationBody]
  refine ensures_nextOf hw hes fun w hw ↦ ?_
  cases hbody with
  | nil =>
    obtain ⟨closing, opening, after, rfl⟩ := hrest
    refine ensures_cellAt hw hfirst fun w hw ↦ ?_
    exact simulates_fail hw
  | @cons next c body hc hbody =>
    refine ensures_cellAt hw hfirst fun w hw ↦ ?_
    cases c with
    | number x => exact simulates_fail hw
    | operator symbol => exact simulates_fail hw
    | function name => exact simulates_fail hw
    | lexeme token => cases hc
    | opening partner => cases hc
    | closing partner => cases hc
  | @group opening closing inner body hinner hbody =>
    have hgroup : es = (before ++ [(h, .function name)]) ++ (opening, .opening closing) ::
        (inner ++ (closing, .closing opening) :: (body ++ rest)) := by simpa using hfirst
    have hitems : itemsOf
          ((opening, .opening closing) :: (inner ++ (closing, .closing opening) :: body) ++ rest)
        = .opening :: itemsOf (inner ++ (closing, .closing opening) :: (body ++ rest)) := by
      simp
    rw [hitems, operand_function]
    refine ensures_cellAt hw hgroup fun w hw ↦ ?_
    refine (hrecur.group hinner hw hgroup).bind (k := applyTo name) ?_
    rintro argument ⟨x, _⟩ w es hw ⟨hes, rfl⟩
    refine simulates_number hw hes fun w hw ↦ ?_
    refine simulates_compute hw fun y hy ↦ ?_
    have hfunction := hes.trans (List.append_cons _ _ _).symm
    have hx : (Cell.number x).isPlain := isFinite_of_holds hw hes
    have hy : (Cell.number y).isPlain := Computation.isFinite_of_value hy
    refine ensures_report hw fun w hw ↦ ?_
    refine ensures_set hw hfunction rfl hy fun w hw ↦ ?_
    refine ensures_remove hw (List.append_cons _ _ _) (.inl hx) fun w hw ↦ ?_
    exact simulates_pure hw ⟨body, hbody, (List.append_cons _ _ _).symm, rfl⟩

private theorem follows_operandBody (hrecur : Follows recur depth) {start : Handle}
    (hbody : IsBody body) (hrest : IsClosing rest) (hstart : firstOf (body ++ rest) = some start)
    (hw : w.Holds origin es) (hes : es = before ++ (body ++ rest)) :
    Simulates origin (operandBody recur start) w (Reduced before rest)
      (operand (depth + 1) (itemsOf (body ++ rest))) := by
  rw [operandBody]
  cases hbody with
  | nil =>
    obtain ⟨closing, opening, after, rfl⟩ := hrest
    cases hstart
    refine ensures_cellAt hw hes fun w hw ↦ ?_
    rw [List.nil_append, itemsOf_closing, operand_missing (.inl rfl)]
    exact simulates_missingOperand rfl hw hes
  | @cons next c body hc hbody =>
    cases hstart
    refine ensures_cellAt hw hes fun w hw ↦ ?_
    cases c with
    | number x => exact simulates_pure hw ⟨body, hbody, hes, rfl⟩
    | function name => exact simulates_application hrecur hbody hrest hw hes
    | operator symbol =>
      by_cases hsymbol : symbol = '-'
      · subst hsymbol
        exact simulates_negate depth hbody hrest hw hes
      · rw [List.cons_append, itemsOf_operator, operand_missing (.inr ⟨symbol, hsymbol, rfl⟩)]
        split
        · next heq => cases heq
        · next heq => cases heq
        · next heq => cases heq
        · next heq => exact absurd (Cell.operator.inj heq) hsymbol
        · exact simulates_missingOperand rfl hw hes
    | lexeme token => cases hc
    | opening partner => cases hc
    | closing partner => cases hc
  | @group opening closing inner body hinner hbody =>
    cases hstart
    have hgroup : es = before ++ (opening, .opening closing) ::
        (inner ++ (closing, .closing opening) :: (body ++ rest)) := by simpa using hes
    refine ensures_cellAt hw hgroup fun w hw ↦ ?_
    have hanswer : operand (depth + 1) (itemsOf
          ((opening, .opening closing) :: (inner ++ (closing, .closing opening) :: body) ++ rest))
        = Climbing.group depth
            (itemsOf (inner ++ (closing, .closing opening) :: (body ++ rest))) := by
      rw [List.cons_append, List.append_assoc, List.cons_append, itemsOf_opening]
      rfl
    rw [hanswer, ← bind_pure (recur _), ← bind_pure (Climbing.group _ _)]
    refine (hrecur.group hinner hw hgroup).bind ?_
    rintro value ⟨x, _⟩ w es hw ⟨hes, rfl⟩
    exact simulates_pure hw ⟨body, hbody, hes, rfl⟩

/-! ## Expressions and right operands -/

private theorem follows_expressionBody (hrecur : Follows recur depth) {left : Handle} {x : Float}
    {least : Nat} (hbody : IsBody body) (hrest : IsClosing rest) (hw : w.Holds origin es)
    (hes : es = before ++ (left, .number x) :: (body ++ rest)) :
    Simulates origin (expressionBody recur left least) w
      (fun h answer es' ↦ h = left ∧ Reduced before rest h answer es')
      (expression (depth + 1) x least (itemsOf (body ++ rest))) := by
  have hleading := leading_itemsOf hbody hrest
  rw [expressionBody]
  refine (Account.at_free hw).operatorAfter hes fun w ⟨hw, _⟩ ↦ ?_
  cases hoperator : operatorIn (body ++ rest) with
  | none =>
    rw [expression_end (by rw [hleading, hoperator]; rintro _ ⟨⟩)]
    exact simulates_pure hw ⟨rfl, body, hbody, hes, rfl⟩
  | some found =>
    obtain ⟨operator, p⟩ := found
    dsimp only
    by_cases hless : p < least
    · rw [if_pos hless, expression_end (by rw [hleading, hoperator]; rintro _ ⟨⟩; exact hless)]
      exact simulates_pure hw ⟨rfl, body, hbody, hes, rfl⟩
    obtain ⟨symbol, body, rfl, hbody, hp⟩ := exists_of_operatorIn hbody hrest hoperator
    have hoperator := hes.trans (List.append_cons _ _ _)
    rw [if_neg hless, List.cons_append, itemsOf_operator,
      expression_operator hp (Nat.not_lt.mp hless)]
    -- What is left of the body gets a new name after each of the calls that follow.
    refine (Account.answers_collapseMinusRun hbody hrest (Account.at_free hw) hoperator).bind ?_
    generalize binaryOperator symbol (itemsOf (body ++ rest)) = replaced
    obtain ⟨symbol, items⟩ := replaced
    rintro _ w es _ ⟨hw, -⟩ ⟨-, body, hbody, hes, rfl⟩
    obtain ⟨⟨start, cell, after, hnext⟩, item, items, hitems⟩ := exists_next hrest body
    have hstart : firstOf (body ++ rest) = some start := by rw [hnext, firstOf_cons]
    have hoperand := hes.trans (List.append_cons _ _ _)
    have hne : itemsOf (body ++ rest) ≠ [] := by simp [hitems]
    refine ensures_nextOf hw hes fun w hw ↦ ?_
    rw [hstart, foldOperator.eq_2 _ _ _ _ _ _ hne]
    refine (hrecur.operand hbody hrest hstart hw hoperand).bind ?_
    rintro right ⟨y, _⟩ w es hw ⟨body, hbody, hes, rfl⟩
    refine (hrecur.rightOperand hbody hrest hw hes).bind ?_
    rintro right ⟨y, _⟩ w es hw ⟨rfl, body, hbody, hes, rfl⟩
    have hcombine : es = before ++ (left, .number x) :: (operator, .operator symbol) ::
        (right, .number y) :: (body ++ rest) := by simpa using hes
    refine simulates_combine hw hcombine fun z w hw ↦ ?_
    exact hrecur.expression hbody hrest hw rfl

private theorem follows_rightOperandBody (hrecur : Follows recur depth) {right : Handle} {y : Float}
    {p : Nat} (hbody : IsBody body) (hrest : IsClosing rest) (hw : w.Holds origin es)
    (hes : es = before ++ (right, .number y) :: (body ++ rest)) :
    Simulates origin (rightOperandBody recur right p) w
      (fun h answer es' ↦ h = right ∧ Reduced before rest h answer es')
      (rightOperand (depth + 1) y p (itemsOf (body ++ rest))) := by
  have hleading := leading_itemsOf hbody hrest
  rw [rightOperandBody]
  refine (Account.at_free hw).operatorAfter hes fun w ⟨hw, _⟩ ↦ ?_
  cases hoperator : operatorIn (body ++ rest) with
  | none =>
    rw [rightOperand_end (by rw [hleading, hoperator]; rintro _ ⟨⟩)]
    exact simulates_pure hw ⟨rfl, body, hbody, hes, rfl⟩
  | some found =>
    obtain ⟨operator, q⟩ := found
    dsimp only
    by_cases htakes : p < q ∨ q = p ∧ groupsRight p
    · rw [if_pos htakes, rightOperand_operator (by rw [hleading, hoperator]; rfl) htakes]
      refine (hrecur.expression hbody hrest hw hes).bind ?_
      rintro _ ⟨y, _⟩ w es hw ⟨rfl, body, hbody, hes, rfl⟩
      exact hrecur.rightOperand hbody hrest hw hes
    · rw [if_neg htakes,
        rightOperand_end (by rw [hleading, hoperator]; rintro _ ⟨⟩; exact htakes)]
      exact simulates_pure hw ⟨rfl, body, hbody, hes, rfl⟩

/-! ## All tasks -/

theorem ensures_start {task : Task} {α : Type} {f : Unit → Reduction α}
    {post : Except Fault α → Workspace → Prop} (hw : w.Holds origin es) (hready : Ready task es)
    (hf : ∀ w', w'.Holds origin es → Ensures (f ()) w' post) :
    Ensures (note (.start task) >>= f) w post :=
  ensures_note hw (.start hready) rfl hf

/-- **Every task does in the sequence what its function does on lists**, at every depth. -/
theorem follows_perform (depth : Nat) : Follows (perform depth) depth := by
  -- Each body calls tasks one level down only, so the contracts of all four hold together.
  induction depth with
  | zero =>
    constructor
    · intro origin w es before inner after opening closing hinner hw hes
      exact simulates_exhausted hw
    · intro origin w es before body rest start hbody hrest hstart hw hes
      exact simulates_exhausted hw
    · intro origin w es before body rest left x least hbody hrest hw hes
      exact simulates_exhausted hw
    · intro origin w es before body rest right y priority hbody hrest hw hes
      exact simulates_exhausted hw
  | succ depth ih =>
    constructor
    · intro origin w es before inner after opening closing hinner hw hes
      refine ensures_start hw ⟨before, inner, closing, after, hinner, hes⟩ fun w hw ↦ ?_
      exact follows_groupBody ih hinner hw hes
    · intro origin w es before body rest start hbody hrest hstart hw hes
      refine ensures_start hw ⟨before, body, rest, hbody, hrest, hstart, hes⟩ fun w hw ↦ ?_
      exact follows_operandBody ih hbody hrest hstart hw hes
    · intro origin w es before body rest left x least hbody hrest hw hes
      refine ensures_start hw ⟨before, x, body, rest, hbody, hrest, hes⟩ fun w hw ↦ ?_
      exact follows_expressionBody ih hbody hrest hw hes
    · intro origin w es before body rest right y priority hbody hrest hw hes
      refine ensures_start hw ⟨before, y, body, rest, hbody, hrest, hes⟩ fun w hw ↦ ?_
      exact follows_rightOperandBody ih hbody hrest hw hes

end Reduction

end Calculator
