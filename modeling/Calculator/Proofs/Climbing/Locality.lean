import Calculator.Proofs.Climbing.Folding
import Calculator.Proofs.Climbing.Nesting

/-!
# Groups are read on their own

What is read between two parentheses depends on nothing behind the closing one, except that a
missing operand at that parenthesis is the end of input if nothing follows. The value is finite, and
an internal error can come only from a function whose name is not known.

## Nesting is kept

A call begins with nested items in front of a closing parenthesis and stops in front of the same
parenthesis, with nested items left. The items that are left need not be among those at the
beginning, because a run of minus signs leaves a product.
-/

namespace Calculator

namespace Climbing

variable {named : String → Prop} {last : Bool} {body inner : List Item}

/-! ## Local answers -/

/-- The error is no broken promise, unless a function has a name of the kind and is not known. -/
def Blameless (named : String → Prop) (cause : EvalError) : Prop :=
  ∀ what, cause = .internal what → ∃ name, named name ∧ MathFunction.ofName? name = none

/-- An answer as it is in front of a closing parenthesis and all that stands behind it. -/
def inFront (rest : List Item) (answer : Float × List Item) : Float × List Item :=
  (answer.1, answer.2 ++ .closing :: rest)

private theorem weight_lt_of_inFront {x : Float} {left rest : List Item}
    (h : weight (inFront rest (x, left)).2 < weight (body ++ .closing :: rest)) :
    weight left < weight body := by
  rw [inFront, weight_append, weight_append] at h
  exact Nat.lt_of_add_lt_add_right h

/-- Reading in front of a closing parenthesis, by what stands behind it: the answer is the same for
all that stands there, or for nothing if the parenthesis is the last item. -/
def IsLocal (named : String → Prop) (last : Bool)
    (f : List Item → Except EvalError (Float × List Item)) : Prop :=
  ∃ r : Except EvalError (Float × List Item),
    (∀ x left, r = .ok (x, left) → x.isFinite ∧ Nested named left) ∧
    (∀ cause, r = .error cause → Blameless named cause) ∧
    ∀ rest : List Item, rest.isEmpty = last → f rest = r.map (inFront rest)

/-- Something that may stand behind the closing parenthesis. -/
def someRest (last : Bool) : List Item := if last then [] else [.closing]

private theorem isEmpty_someRest (last : Bool) : (someRest last).isEmpty = last := by
  cases last <;> rfl

namespace IsLocal

variable {f g : List Item → Except EvalError (Float × List Item)}

theorem ok {x : Float} {left : List Item} (hx : x.isFinite) (hleft : Nested named left) :
    IsLocal named last fun rest ↦ .ok (x, left ++ .closing :: rest) :=
  ⟨.ok (x, left), by rintro _ _ ⟨⟩; exact ⟨hx, hleft⟩, by rintro _ ⟨⟩, fun _ _ ↦ rfl⟩

theorem error {cause : EvalError} (hcause : Blameless named cause) :
    IsLocal named last fun _ ↦ .error cause :=
  ⟨.error cause, by rintro _ _ ⟨⟩, by rintro _ ⟨⟩; exact hcause, fun _ _ ↦ rfl⟩

theorem congr (hg : IsLocal named last g) (hfg : ∀ rest, rest.isEmpty = last → f rest = g rest) :
    IsLocal named last f := by
  obtain ⟨r, hok, herror, hr⟩ := hg
  exact ⟨r, hok, herror, fun rest hrest ↦ (hfg rest hrest).trans (hr rest hrest)⟩

/-- **The rule for a sequence.** The second part may use what the first one answers. -/
theorem bind {k : Float × List Item → Except EvalError (Float × List Item)}
    (hf : IsLocal named last f)
    (hk : ∀ x left, x.isFinite → Nested named left →
      f (someRest last) = .ok (inFront (someRest last) (x, left)) →
      IsLocal named last fun rest ↦ k (x, left ++ .closing :: rest)) :
    IsLocal named last fun rest ↦ f rest >>= k := by
  obtain ⟨r, hok, herror, hr⟩ := hf
  cases r with
  | error cause =>
    refine (error (herror cause rfl)).congr fun rest hrest ↦ ?_
    rw [hr rest hrest]
    rfl
  | ok answer =>
    obtain ⟨x, left⟩ := answer
    obtain ⟨hx, hleft⟩ := hok x left rfl
    refine (hk x left hx hleft (hr _ (isEmpty_someRest last))).congr fun rest hrest ↦ ?_
    rw [hr rest hrest]
    rfl

end IsLocal

/-- A group with the given content has a value of its own. -/
def IsLocalGroup (named : String → Prop) (last : Bool) (inner : List Item) : Prop :=
  ∃ r : Except EvalError Float, (∀ x, r = .ok x → x.isFinite) ∧
    (∀ cause, r = .error cause → Blameless named cause) ∧
    ∀ rest : List Item, rest.isEmpty = last →
      readGroup (inner ++ .closing :: rest) = r.map fun x ↦ (x, rest)

/-- A group that is not the last item, with nested items behind it. -/
theorem IsLocalGroup.inside {left : List Item} (h : IsLocalGroup named false inner) (last : Bool)
    (hleft : Nested named left) :
    IsLocal named last fun rest ↦ readGroup (inner ++ .closing :: (left ++ .closing :: rest)) := by
  obtain ⟨r, hok, herror, hr⟩ := h
  have hread : ∀ rest : List Item, rest.isEmpty = last →
      readGroup (inner ++ .closing :: (left ++ .closing :: rest))
        = r.map fun x ↦ (x, left ++ .closing :: rest) :=
    fun rest _ ↦ hr _ (by simp)
  cases r with
  | error cause => exact (IsLocal.error (herror cause rfl)).congr hread
  | ok x => exact (IsLocal.ok (hok x rfl) hleft).congr hread

/-! ## Reading lighter items is local -/

/-- Reading nested items is local as long as they are lighter than `n`. -/
structure LocalBelow (named : String → Prop) (n : Nat) : Prop where
  operand {body : List Item} (last : Bool) : Nested named body → weight body < n →
    IsLocal named last fun rest ↦ readOperand (body ++ .closing :: rest)
  expression {body : List Item} (last : Bool) {x : Float} (hx : x.isFinite) (least : Nat) :
    Nested named body → weight body < n →
    IsLocal named last fun rest ↦ readExpression x least (body ++ .closing :: rest)

private theorem blameless_of_value {what : Computation} {x : Float} {cause : EvalError}
    (houtcome : what.outcome = .ok x) (h : what.value = .error cause) : Blameless named cause := by
  rw [Computation.domain_of_value houtcome h]
  rintro _ ⟨⟩

private theorem blameless_application {name : String} {x : Float} {cause : EvalError}
    (hname : named name)
    (h : (Computation.application name x).value = .error cause) : Blameless named cause := by
  cases hf : MathFunction.ofName? name with
  | none => exact fun _ _ ↦ ⟨name, hname, hf⟩
  | some f =>
    refine blameless_of_value (x := f.apply x) ?_ h
    rw [Computation.outcome, hf]

/-- A binary operator is known if its first character has a priority. -/
theorem ofChar?_binaryOperator {symbol : Char} {p : Nat} (hp : priority symbol = some p)
    (items : List Item) : ∃ o, Operator.ofChar? (binaryOperator symbol items).1 = some o := by
  rw [binaryOperator]
  split
  · dsimp only
    cases (minusRun true items).1
    · exact ⟨.add, rfl⟩
    · exact ⟨.subtract, rfl⟩
  · obtain ⟨o, ho, -⟩ := Option.map_eq_some_iff.mp hp
    exact ⟨o, ho⟩

namespace LocalBelow

variable {n : Nat}

theorem readFrom (hn : LocalBelow named n) (last : Bool) (least : Nat) (hbody : Nested named body)
    (hweight : weight body < n) :
    IsLocal named last fun rest ↦ readFrom least (body ++ .closing :: rest) := by
  refine (hn.operand last hbody hweight).bind fun x left hx hleft hread ↦ ?_
  have hlt := weight_lt_of_inFront (weight_lt_of_readOperand hread)
  exact hn.expression last hx least hleft (Nat.lt_trans hlt hweight)

theorem group (hn : LocalBelow named n) (last : Bool) (hinner : Nested named inner)
    (hweight : weight inner < n) : IsLocalGroup named last inner := by
  by_cases hempty : inner = []
  · subst hempty
    refine ⟨.error .emptyGroup, ?_, ?_, fun rest _ ↦ readGroup_closing rest⟩
    · rintro _ ⟨⟩
    · rintro _ ⟨⟩ _ ⟨⟩
  have hread : ∀ rest, readGroup (inner ++ .closing :: rest)
      = Climbing.readFrom 1 (inner ++ .closing :: rest) >>= closeGroup := by
    intro rest
    cases hinner with
    | nil => exact absurd rfl hempty
    | @cons item _ hitem _ =>
      refine readGroup_cons ?_ _
      rintro rfl
      exact hitem
    | group _ _ => exact readGroup_cons (by rintro ⟨⟩) _
  -- Whatever the content reads as, the group reads as a value that does not depend on the rest.
  obtain ⟨r, hok, herror, hr⟩ := hn.readFrom last 1 hinner hweight
  have hfinish : ∀ r' : Except EvalError Float,
      (∀ rest, r.map (inFront rest) >>= closeGroup = r'.map fun x ↦ (x, rest)) →
      ∀ rest : List Item, rest.isEmpty = last →
        readGroup (inner ++ .closing :: rest) = r'.map fun x ↦ (x, rest) := by
    intro r' hr' rest hrest
    dsimp only at hr
    rw [hread rest, hr rest hrest]
    exact hr' rest
  cases r with
  | error cause =>
    refine ⟨.error cause, ?_, ?_, hfinish _ fun _ ↦ rfl⟩
    · rintro _ ⟨⟩
    · rintro _ ⟨⟩
      exact herror cause rfl
  | ok answer =>
    obtain ⟨x, left⟩ := answer
    obtain ⟨hx, hleft⟩ := hok x left rfl
    cases hleft with
    | nil =>
      refine ⟨.ok x, ?_, ?_, hfinish _ fun _ ↦ rfl⟩
      · rintro _ ⟨⟩
        exact hx
      · rintro _ ⟨⟩
    | @cons item left hitem _ =>
      refine ⟨.error (.unexpectedToken item.text), ?_, ?_, hfinish _ fun rest ↦ ?_⟩
      · rintro _ ⟨⟩
      · rintro _ ⟨⟩ _ ⟨⟩
      · cases item with
        | closing => exact hitem.elim
        | _ => rfl
    | group _ _ =>
      refine ⟨.error (.unexpectedToken (Item.text .opening)), ?_, ?_, hfinish _ fun rest ↦ rfl⟩
      · rintro _ ⟨⟩
      · rintro _ ⟨⟩ _ ⟨⟩

/-- A function with its argument, in front of nested items. -/
theorem application (hn : LocalBelow named n) (last : Bool) {name : String} {left : List Item}
    (hname : named name) (hleft : Nested named left) (hweight : weight left < n) :
    IsLocal named last fun rest ↦ readOperand (.function name :: left ++ .closing :: rest) := by
  by_cases hopening : ∃ items, left = .opening :: items
  · obtain ⟨items, rfl⟩ := hopening
    cases hleft with
    | cons hitem _ => exact hitem.elim
    | @group inner left hinner hleft =>
      rw [weight_cons, weight_append] at hweight
      -- The argument's closing parenthesis is never the last item: the outer one comes later.
      have hgroup := hn.group false hinner (by omega)
      have hread : ∀ rest : List Item, rest.isEmpty = last →
          readOperand
              (.function name :: .opening :: (inner ++ .closing :: left) ++ .closing :: rest)
            = readGroup (inner ++ .closing :: (left ++ .closing :: rest)) >>= fun answer ↦ do
                let y ← (Computation.application name answer.1).value
                return (y, answer.2) := by
        intro rest _
        rw [List.cons_append, List.cons_append, readOperand_function, List.append_assoc]
        rfl
      refine ((hgroup.inside last hleft).bind fun x later _ hlater _ ↦ ?_).congr hread
      dsimp only
      cases hvalue : (Computation.application name x).value with
      | ok y => exact IsLocal.ok (Computation.isFinite_of_value hvalue) hlater
      | error cause => exact IsLocal.error (blameless_application hname hvalue)
  · have hread : ∀ rest, readOperand (.function name :: left ++ .closing :: rest)
        = .error (.missingArgument name) := by
      intro rest
      refine readOperand_missingArgument name fun items hitems ↦ ?_
      cases left with
      | nil => cases hitems
      | cons item left =>
        cases hitems
        exact hopening ⟨left, rfl⟩
    refine IsLocal.congr (.error ?_) fun rest _ ↦ hread rest
    rintro _ ⟨⟩

/-- An operator with its right operand, in front of nested items. -/
theorem operation (hn : LocalBelow named n) (last : Bool) (x : Float) (p : Nat) {symbol : Char}
    {o : Operator} (hbody : Nested named body) (hweight : weight body < n)
    (ho : Operator.ofChar? symbol = some o) :
    IsLocal named last fun rest ↦ readOperation x p (symbol, body ++ .closing :: rest) := by
  have hread : ∀ rest : List Item, rest.isEmpty = last →
      readOperation x p (symbol, body ++ .closing :: rest) = _ :=
    fun rest _ ↦ readOperation_eq (by simp) x p symbol
  refine ((hn.readFrom last (tighter p) hbody hweight).bind fun y left _ hleft _ ↦ ?_).congr hread
  dsimp only
  cases hvalue : (Computation.combination x symbol y).value with
  | ok z => exact IsLocal.ok (Computation.isFinite_of_value hvalue) hleft
  | error cause =>
    refine IsLocal.error (blameless_of_value (x := o.apply x y) ?_ hvalue)
    rw [Computation.outcome, ho]

theorem operand_succ (hn : LocalBelow named n) (last : Bool) (hbody : Nested named body)
    (hweight : weight body ≤ n) :
    IsLocal named last fun rest ↦ readOperand (body ++ .closing :: rest) := by
  cases hbody with
  | nil =>
    have hread : ∀ rest : List Item, rest.isEmpty = last → readOperand ([] ++ .closing :: rest)
        = .error (.missingOperand (if last then none else some (Item.text .closing))) := by
      intro rest hrest
      rw [List.nil_append, readOperand_missing (.inl rfl), ← hrest]
      simp
    refine IsLocal.congr (.error ?_) hread
    rintro _ ⟨⟩
  | @cons item left hitem hleft =>
    have hpos := item.weight_pos
    rw [weight_cons] at hweight
    cases item with
    | number x => exact (IsLocal.ok hitem hleft).congr fun _ _ ↦ readOperand_number _ _
    | operator symbol =>
      by_cases hsymbol : symbol = '-'
      · subst hsymbol
        -- A product is put in front of what is left, so the items left need not be a part of these.
        have hproduct : Nested named (.operator '*' :: (minusRun true left).2) :=
          .cons trivial (hleft.minusRun true)
        have hread : ∀ rest, readOperand (.operator '-' :: left ++ .closing :: rest)
            = .ok (if (minusRun true left).1 then -1.0 else 1.0,
                .operator '*' :: (minusRun true left).2 ++ .closing :: rest) := by
          intro rest
          rw [List.cons_append, readOperand_minus, minusRun_append]
          cases (minusRun true left).2 <;> rfl
        exact (IsLocal.ok (isFinite_sign _) hproduct).congr fun rest _ ↦ hread rest
      · have hread : ∀ rest, readOperand (.operator symbol :: left ++ .closing :: rest)
            = .error (.missingOperand (some (Item.operator symbol).text)) := by
          intro rest
          rw [List.cons_append, readOperand_missing (.inr ⟨symbol, hsymbol, rfl⟩)]
          simp
        refine IsLocal.congr (.error ?_) fun rest _ ↦ hread rest
        rintro _ ⟨⟩
    | function name => exact hn.application last hitem hleft (by omega)
    | opening => exact hitem.elim
    | closing => exact hitem.elim
  | @group inner left hinner hleft =>
    rw [weight_cons, weight_append] at hweight
    have hpos := Item.opening.weight_pos
    have hgroup := hn.group false hinner (by omega)
    refine (hgroup.inside last hleft).congr fun rest _ ↦ ?_
    rw [List.cons_append, readOperand_opening, List.append_assoc]
    rfl

theorem expression_succ (hn : LocalBelow named n) (last : Bool) {x : Float} (hx : x.isFinite)
    (least : Nat) (hbody : Nested named body) (hweight : weight body ≤ n) :
    IsLocal named last fun rest ↦ readExpression x least (body ++ .closing :: rest) := by
  by_cases hnext : ∃ p, leading body = some p ∧ least ≤ p
  · obtain ⟨p, hp, hleast⟩ := hnext
    obtain ⟨symbol, left, rfl, hpriority⟩ := exists_of_leading hp
    have hpos := (Item.operator symbol).weight_pos
    have hrun := weight_binaryOperator symbol left
    rw [weight_cons] at hweight
    have hleft : Nested named (binaryOperator symbol left).2 := by
      cases hbody with
      | cons _ hleft => exact hleft.binaryOperator symbol
    obtain ⟨o, ho⟩ := ofChar?_binaryOperator hpriority left
    have hoperation := hn.operation last x p hleft (by omega) ho
    have hread : ∀ rest : List Item, rest.isEmpty = last →
        readExpression x least (.operator symbol :: left ++ .closing :: rest)
          = readOperation x p ((binaryOperator symbol left).1,
              (binaryOperator symbol left).2 ++ .closing :: rest)
            >>= fun answer ↦ readExpression answer.1 least answer.2 := by
      intro rest _
      rw [List.cons_append, readExpression_operator hpriority hleast, binaryOperator_append]
    refine (hoperation.bind fun z later hz hlater hfold ↦ ?_).congr hread
    have hlt := weight_lt_of_inFront (weight_lt_of_readOperation hfold)
    exact hn.expression last hz least hlater (by omega)
  · refine (IsLocal.ok hx hbody).congr fun rest _ ↦ readExpression_end ?_ x
    intro p hp
    rw [leading_append_closing] at hp
    exact Nat.lt_of_not_le fun hle ↦ hnext ⟨p, hp, hle⟩

end LocalBelow

/-- **Reading nested items is local.** -/
theorem localBelow (named : String → Prop) (n : Nat) : LocalBelow named n := by
  induction n with
  | zero =>
    constructor
    · intro body last hbody hweight
      exact absurd hweight (Nat.not_lt_zero _)
    · intro body last x hx least hbody hweight
      exact absurd hweight (Nat.not_lt_zero _)
  | succ n ih =>
    constructor
    · intro body last hbody hweight
      exact ih.operand_succ last hbody (Nat.le_of_lt_succ hweight)
    · intro body last x hx least hbody hweight
      exact ih.expression_succ last hx least hbody (Nat.le_of_lt_succ hweight)

/-- **A group has a value of its own.** -/
theorem isLocalGroup (hinner : Nested named inner) (last : Bool) : IsLocalGroup named last inner :=
  (localBelow named (weight inner + 1)).group last hinner (Nat.lt_succ_self _)

end Climbing

end Calculator
