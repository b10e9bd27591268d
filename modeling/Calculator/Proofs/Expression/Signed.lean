import Calculator.Proofs.Climbing.Locality
import Calculator.Proofs.Expression.Signs
import Calculator.Proofs.Expression.Written

/-!
# Signed right operands

What minus signs in front of a right operand mean. Behind an addition, a subtraction or a product
they negate that operand: the value is the one with the signed operand in parentheses, bit for bit,
and so is the kind of the error if there is none.

A quotient or a power takes the sign away from its right operand: `6 / - 3` is `( 6 / -1 ) * 3`.

## Operands are not taken apart

An operand is a number or a group, and a group has a value of its own whatever is in it. So nothing
is asked of what stands in parentheses but that its own parentheses match.
-/

namespace Calculator

open Climbing (Item ReadsAs sign subtractionOrSum)

/-! ## Operands with signs -/

/-- An operand without a sign. What its parentheses hold need not be an expression. -/
inductive Operand where
  | number (literal : String)
  | group (content : List Token) (hcontent : Climbing.balanced 0 content)
  | application (name : String) (content : List Token) (hcontent : Climbing.balanced 0 content)

/-- The tokens of an operand. -/
def Operand.tokens : Operand → List Token
  | number literal => [.number literal]
  | group content _ => .opening :: content ++ [.closing]
  | application name content _ => .function name :: .opening :: content ++ [.closing]

/-- Minus signs in a row. -/
def minusSigns (count : Nat) : List Token := List.replicate count (.operator '-')

/-- An operator between two operands, the right one with minus signs: `A o - … - B`. -/
def withSigns (left : Operand) (o : Operator) (count : Nat) (right : Operand) : List Token :=
  left.tokens ++ .operator o.symbol :: (minusSigns count ++ right.tokens)

/-- The same with the signed operand in parentheses: `A o ( - … - B )`. -/
def withSignedGroup (left : Operand) (o : Operator) (count : Nat) (right : Operand) : List Token :=
  left.tokens ++ Token.operator o.symbol ::
    (Token.opening :: (minusSigns count ++ right.tokens) ++ [Token.closing])

/-- The literal of the factor that minus signs amount to. -/
def signLiteral (count : Nat) : String := if count % 2 = 1 then "-1" else "1"

/-- The same with the factor given to the left operand: `( A o ±1 ) * B`. -/
def withFactor (left : Operand) (o : Operator) (count : Nat) (right : Operand) : List Token :=
  (Token.opening :: (left.tokens ++ [Token.operator o.symbol, Token.number (signLiteral count)]) ++
    [Token.closing]) ++ Token.operator '*' :: right.tokens

/-! ## Reading operands -/

private theorem exists_of_mapM_append {left right : List Token} {items : List Item}
    (h : (left ++ right).mapM Item.ofToken = .ok items) :
    ∃ leftItems rightItems, left.mapM Item.ofToken = .ok leftItems ∧
      right.mapM Item.ofToken = .ok rightItems ∧ items = leftItems ++ rightItems := by
  rw [List.mapM_append] at h
  cases hleft : left.mapM Item.ofToken with
  | error cause => rw [hleft] at h; cases h
  | ok leftItems =>
    cases hright : right.mapM Item.ofToken with
    | error cause => rw [hleft, hright] at h; cases h
    | ok rightItems =>
      rw [hleft, hright] at h
      cases h
      exact ⟨leftItems, rightItems, rfl, rfl, rfl⟩

namespace Operand

variable {operand : Operand} {items : List Item}

private theorem balanced_tokens (operand : Operand) : Climbing.balanced 0 operand.tokens := by
  cases operand with
  | number _ => rfl
  | group content hcontent => exact Climbing.balanced_enclosed hcontent
  | application name content hcontent => exact Climbing.balanced_enclosed hcontent

/-- Balanced tokens in parentheses have a value of their own. -/
private theorem exists_readGroup {content : List Token} (hcontent : Climbing.balanced 0 content)
    (hitems : content.mapM Item.ofToken = .ok items) :
    ∃ value : Except EvalError Float, (∀ x, value = .ok x → x.isFinite) ∧ ∀ rest, rest ≠ [] →
      Climbing.readGroup (items ++ .closing :: rest) = value >>= fun x ↦ .ok (x, rest) := by
  have hnested := Climbing.nested_of_balanced (fun _ ↦ True) hcontent hitems fun _ _ ↦ trivial
  obtain ⟨value, hfinite, -, hread⟩ := Climbing.isLocalGroup hnested false
  refine ⟨value, hfinite, fun rest hrest ↦ ?_⟩
  rw [hread rest (by cases rest <;> simp_all)]
  cases value <;> rfl

private theorem exists_value (hitems : operand.tokens.mapM Item.ofToken = .ok items) :
    ∃ value : Except EvalError Float,
      ReadsAs items none value ∧ ∀ x, value = .ok x → x.isFinite := by
  cases operand with
  | number literal =>
    obtain ⟨item, _, hitem, ⟨⟩, rfl⟩ := Climbing.exists_of_mapM_cons hitems
    rw [Item.ofToken_number] at hitem
    cases hvalue : (Computation.literal literal).value with
    | error cause => rw [hvalue] at hitem; cases hitem
    | ok x =>
      rw [hvalue] at hitem
      cases hitem
      refine ⟨.ok x, .number x, ?_⟩
      rintro _ ⟨⟩
      exact Computation.isFinite_of_value hvalue
  | group content hcontent =>
    obtain ⟨before, closing, hbefore, hclosing, rfl⟩ := exists_of_mapM_append hitems
    obtain ⟨first, inner, hfirst, hinner, rfl⟩ := Climbing.exists_of_mapM_cons hbefore
    cases hfirst
    cases hclosing
    obtain ⟨value, hfinite, hread⟩ := exists_readGroup hcontent hinner
    exact ⟨value, .ofGroup hread, hfinite⟩
  | application name content hcontent =>
    obtain ⟨before, closing, hbefore, hclosing, rfl⟩ := exists_of_mapM_append hitems
    obtain ⟨function, behind, hfunction, hbehind, rfl⟩ := Climbing.exists_of_mapM_cons hbefore
    obtain ⟨first, inner, hfirst, hinner, rfl⟩ := Climbing.exists_of_mapM_cons hbehind
    cases hfunction
    cases hfirst
    cases hclosing
    obtain ⟨value, -, hread⟩ := exists_readGroup hcontent hinner
    refine ⟨_, .ofArgument name hread, fun x hx ↦ ?_⟩
    cases value with
    | error cause => cases hx
    | ok y => exact Computation.isFinite_of_value hx

/-- The operand can be read, and has the given value in an expression. -/
structure HasValue (operand : Operand) (items : List Item) (value : Except EvalError Float) :
    Prop where
  writes : WritesItems operand.tokens items
  reads : ReadsAs items none value
  isFinite : ∀ x, value = .ok x → x.isFinite

private theorem exists_hasValue (hitems : operand.tokens.mapM Item.ofToken = .ok items) :
    ∃ value, operand.HasValue items value := by
  obtain ⟨value, hreads, hfinite⟩ := exists_value hitems
  exact ⟨value, ⟨balanced_tokens operand, hitems⟩, hreads, hfinite⟩

end Operand

/-! ## Expressions that can be read -/

theorem writesItems_minusSigns (count : Nat) :
    WritesItems (minusSigns count) (Climbing.minusItems count) := by
  induction count with
  | zero => exact ⟨rfl, rfl⟩
  | succ count ih =>
    rw [minusSigns, List.replicate_succ, Climbing.minusItems_succ]
    exact (WritesItems.operator '-').append ih

theorem writesItems_signLiteral (count : Nat) :
    WritesItems [.number (signLiteral count)] [.number (sign count)] := by
  refine .number ?_
  rw [signLiteral, sign]
  split
  · decide +kernel
  · decide +kernel

variable {left right : Operand} {leftItems rightItems : List Item}
  {leftValue rightValue : Except EvalError Float} {count : Nat}

/-- The value of an operand and what is folded into it. -/
theorem Operand.HasValue.evaluate_eq (hleft : left.HasValue leftItems leftValue) {symbol : Char}
    {tokens : List Token} {items : List Item} (hitems : WritesItems tokens items)
    {fold : Float → Except EvalError Float}
    (hfold : ∀ x, Climbing.readExpression x 1 (.operator symbol :: (items ++ [Item.closing]))
      = fold x >>= fun z ↦ .ok (z, [.closing])) :
    evaluate (left.tokens ++ Token.operator symbol :: tokens) = leftValue >>= fold := by
  have hwrites := hleft.writes.append ((WritesItems.operator symbol).append hitems)
  have hreads := hleft.reads.reads 1 (.operator symbol :: (items ++ [Item.closing]))
    (List.cons_ne_nil _ _) (by rintro _ ⟨⟩) .inside
  obtain ⟨item, rest, rfl, hitem⟩ := hleft.reads.begins
  -- All of the expression is one group, and its operand is read before the operator is looked at.
  have hgroup :
      Climbing.readGroup (item :: rest ++ ([Item.operator symbol] ++ items) ++ [Item.closing])
        = leftValue >>= fun x ↦ fold x >>= fun z ↦ .ok (z, []) := by
    have happend : item :: rest ++ ([Item.operator symbol] ++ items) ++ [Item.closing]
        = item :: rest ++ Item.operator symbol :: (items ++ [Item.closing]) := by simp
    rw [happend, List.cons_append,
      Climbing.readGroup_cons (Climbing.ne_closing_of_beginsPrimary hitem), ← List.cons_append,
      hreads, bind_assoc]
    refine Climbing.bind_congr_ok fun x _ ↦ ?_
    rw [hfold, bind_assoc]
    rfl
  refine hwrites.evaluate_eq_readGroup.trans ?_
  rw [hgroup]
  simp only [bind_assoc, Climbing.ok_bind]
  refine Climbing.bind_congr_ok fun x _ ↦ ?_
  cases fold x <;> rfl

section Values

variable (hleft : left.HasValue leftItems leftValue) (hright : right.HasValue rightItems rightValue)
include hleft hright

private theorem evaluate_withSigns_add (hcount : 0 < count) :
    evaluate (withSigns left .add count right) = (do
      let x ← leftValue
      let y ← rightValue
      let y ← (Computation.combination (sign count) '*' y).value
      (Computation.combination x '+' y).value) := by
  refine hleft.evaluate_eq ((writesItems_minusSigns count).append hright.writes) fun x ↦ ?_
  refine .trans ?_ ((hright.reads.readExpression_add [] hcount x).trans ?_)
  · rw [List.append_assoc]
    rfl
  · simp only [bind_assoc]

private theorem evaluate_withSigns_subtract (count : Nat) :
    evaluate (withSigns left .subtract count right) = (do
      let x ← leftValue
      let y ← rightValue
      (Computation.combination x (subtractionOrSum count).symbol y).value) := by
  refine hleft.evaluate_eq ((writesItems_minusSigns count).append hright.writes) fun x ↦ ?_
  refine .trans ?_ ((hright.reads.readExpression_subtract [] count x).trans ?_)
  · rw [List.append_assoc]
    rfl
  · simp only [bind_assoc]

private theorem evaluate_withSigns_tight {o : Operator} (ho : 2 ≤ o.priority) (hcount : 0 < count) :
    evaluate (withSigns left o count right) = (do
      let x ← leftValue
      let z ← (Computation.combination x o.symbol (sign count)).value
      let y ← rightValue
      (Computation.combination z '*' y).value) := by
  have hsymbol : o.symbol ≠ '-' := by
    cases o with
    | subtract => exact absurd ho (by decide)
    | _ => decide
  refine hleft.evaluate_eq ((writesItems_minusSigns count).append hright.writes) fun x ↦ ?_
  have hread := hright.reads.readExpression_tight [] o.priority_symbol hsymbol ho hcount x
  refine .trans ?_ (hread.trans ?_)
  · rw [List.append_assoc]
  · simp only [bind_assoc]

private theorem evaluate_withSignedGroup (o : Operator) (hcount : 0 < count) :
    evaluate (withSignedGroup left o count right) = (do
      let x ← leftValue
      let y ← rightValue
      let y ← (Computation.combination (sign count) '*' y).value
      (Computation.combination x o.symbol y).value) := by
  have hgroup := hright.reads.signedGroup hcount
  have hwrites := ((writesItems_minusSigns count).append hright.writes).enclosed
  have hreads := hleft.reads.combination hgroup o.priority_symbol (by rintro _ ⟨⟩) .inside
    (by rintro _ ⟨⟩)
  refine ((hleft.writes.append ((WritesItems.operator o.symbol).append hwrites)).evaluate_eq hreads
    ?_).trans ?_
  · rintro _ ⟨⟩
    exact o.one_le_priority
  · simp only [bind_assoc]

private theorem evaluate_withFactor (o : Operator) (count : Nat) :
    evaluate (withFactor left o count right) = (do
      let x ← leftValue
      let z ← (Computation.combination x o.symbol (sign count)).value
      let y ← rightValue
      (Computation.combination z '*' y).value) := by
  have hfactor := hleft.reads.combination (.number (sign count)) o.priority_symbol
    (by rintro _ ⟨⟩) .inside (by rintro _ ⟨⟩)
  have hinner := hleft.writes.append
    ((WritesItems.operator o.symbol).append (writesItems_signLiteral count))
  have hgroup := hfactor.enclosed (by rintro _ ⟨⟩; exact o.one_le_priority)
  have hreads := hgroup.combination hright.reads (Operator.priority_symbol .multiply)
    (by rintro _ ⟨⟩) .inside (by rintro _ ⟨⟩)
  have hwrites := hinner.enclosed.append ((WritesItems.operator '*').append hright.writes)
  have hvalue := hwrites.evaluate_eq hreads (by rintro _ ⟨⟩; decide)
  have htokens : withFactor left o count right
      = (Token.opening ::
          (left.tokens ++ ([Token.operator o.symbol] ++ [Token.number (signLiteral count)])) ++
            [Token.closing]) ++ ([Token.operator '*'] ++ right.tokens) := rfl
  rw [htokens, hvalue]
  simp only [bind_assoc, Climbing.ok_bind]
  rfl

end Values

/-! ## Numbers that cannot be read -/

/-- The first number in two operands that cannot be read decides, whatever else is written. -/
theorem evaluate_of_unreadable (before after : List Token) {middle : List Token}
    {items items' : List Item} {cause : EvalError} (hbefore : before.mapM Item.ofToken = .ok items)
    (hmiddle : middle.mapM Item.ofToken = .ok items')
    (hbalanced : Climbing.balanced 0
      (before ++ (left.tokens ++ (middle ++ (right.tokens ++ after)))))
    (h : (left.tokens ++ right.tokens).mapM Item.ofToken = .error cause) :
    evaluate (before ++ (left.tokens ++ (middle ++ (right.tokens ++ after)))) = .error cause := by
  -- Operators and parentheses are always read, so only the operands can fail, the left one first.
  have hreads : (before ++ (left.tokens ++ (middle ++ (right.tokens ++ after)))).mapM Item.ofToken
      = .error cause := by
    rw [List.mapM_append] at h
    simp only [List.mapM_append, hbefore, hmiddle, Climbing.ok_bind]
    cases hleft : left.tokens.mapM Item.ofToken with
    | error cause' =>
      rw [hleft] at h
      cases h
      rfl
    | ok leftItems =>
      cases hright : right.tokens.mapM Item.ofToken with
      | error cause' =>
        rw [hleft, hright] at h
        cases h
        rfl
      | ok rightItems =>
        rw [hleft, hright] at h
        cases h
  rw [evaluate_eq_readValue, readValue, Climbing.readItems, if_pos hbalanced, hreads]
  rfl

section Unreadable

variable {cause : EvalError}
  (h : (left.tokens ++ right.tokens).mapM Item.ofToken = .error cause) (o : Operator) (count : Nat)
include h

private theorem evaluate_withSigns_of_error :
    evaluate (withSigns left o count right) = .error cause := by
  have hmiddle := (WritesItems.operator o.symbol).append (writesItems_minusSigns count)
  have hbalanced := Climbing.balanced_append_of_balanced left.balanced_tokens
    (Climbing.balanced_append_of_balanced hmiddle.balanced right.balanced_tokens)
  have hframe := evaluate_of_unreadable [] [] rfl hmiddle.reads
    (by simpa using hbalanced) h
  simpa [withSigns] using hframe

private theorem evaluate_withSignedGroup_of_error :
    evaluate (withSignedGroup left o count right) = .error cause := by
  have hsigns := writesItems_minusSigns count
  have hoperator : [Token.operator o.symbol, .opening].mapM Item.ofToken
      = .ok [.operator o.symbol, .opening] := rfl
  have hgroup := Climbing.balanced_enclosed
    (Climbing.balanced_append_of_balanced hsigns.balanced right.balanced_tokens)
  have hbalanced := Climbing.balanced_append_of_balanced left.balanced_tokens
    (Climbing.balanced_append_of_balanced (WritesItems.operator o.symbol).balanced hgroup)
  have hframe := evaluate_of_unreadable [] [.closing] rfl
    (mapM_append_of_ok hoperator hsigns.reads) (by simpa using hbalanced) h
  simpa [withSignedGroup] using hframe

private theorem evaluate_withFactor_of_error :
    evaluate (withFactor left o count right) = .error cause := by
  have hfactor := (WritesItems.operator o.symbol).append (writesItems_signLiteral count)
  have hproduct : [Token.closing, .operator '*'].mapM Item.ofToken
      = .ok [.closing, .operator '*'] := rfl
  have hgroup := Climbing.balanced_enclosed
    (Climbing.balanced_append_of_balanced left.balanced_tokens hfactor.balanced)
  have hbalanced := Climbing.balanced_append_of_balanced hgroup
    (Climbing.balanced_append_of_balanced (WritesItems.operator '*').balanced right.balanced_tokens)
  have hopening : [Token.opening].mapM Item.ofToken = .ok [.opening] := rfl
  have hframe := evaluate_of_unreadable [.opening] [] hopening
    (mapM_append_of_ok hfactor.reads hproduct) (by simpa using hbalanced) h
  simpa [withFactor] using hframe

end Unreadable

/-! ## The meaning of a signed right operand -/

/-- Signs in front of a right operand mean the negated operand, where its operator leaves the
product that the signs become to that operand or is a product itself. -/
theorem valueOrKind_withSigns (hleft : left.HasValue leftItems leftValue)
    (hright : right.HasValue rightItems rightValue) (hcount : 0 < count) {o : Operator}
    (ho : o = .add ∨ o = .subtract ∨ o = .multiply) :
    valueOrKind (evaluate (withSigns left o count right))
      = valueOrKind (evaluate (withSignedGroup left o count right)) := by
  rw [evaluate_withSignedGroup hleft hright o hcount]
  rcases ho with rfl | rfl | rfl
  · -- Both sides do the very same computations here, errors included.
    rw [evaluate_withSigns_add hleft hright hcount]
    rfl
  · rw [evaluate_withSigns_subtract hleft hright]
    refine valueOrKind_bind fun x _ ↦ valueOrKind_bind fun y hy ↦ ?_
    have hfinite := hright.isFinite y hy
    rw [value_sign_mul hfinite, Climbing.ok_bind]
    exact valueOrKind_subtract hfinite x count
  · -- The sign is a factor of the left operand here, and one of the right operand there.
    rw [evaluate_withSigns_tight hleft hright (by decide) hcount]
    refine valueOrKind_bind fun x hx ↦ ?_
    have hfinite := hleft.isFinite x hx
    rw [Operator.symbol, value_mul_sign hfinite, Climbing.ok_bind]
    refine valueOrKind_bind fun y hy ↦ ?_
    rw [value_sign_mul (hright.isFinite y hy), Climbing.ok_bind]
    exact valueOrKind_multiply hfinite (hright.isFinite y hy) count

/-- **Signed right operands.** Behind `+`, `-` and `*` minus signs negate the right operand, as if
the signed operand stood in parentheses. Behind `/` and `&` they are a factor of the left operand's
result, as if that stood in parentheses with the factor. -/
theorem evaluate_withSigns (left right : Operand) (o : Operator) {count : Nat}
    (hcount : 0 < count) :
    (o = .add ∨ o = .subtract ∨ o = .multiply →
        valueOrKind (evaluate (withSigns left o count right))
          = valueOrKind (evaluate (withSignedGroup left o count right))) ∧
      (o = .divide ∨ o = .power →
        evaluate (withSigns left o count right) = evaluate (withFactor left o count right)) := by
  cases hitems : (left.tokens ++ right.tokens).mapM Item.ofToken with
  | error cause =>
    rw [evaluate_withSigns_of_error hitems, evaluate_withSignedGroup_of_error hitems,
      evaluate_withFactor_of_error hitems]
    exact ⟨fun _ ↦ rfl, fun _ ↦ rfl⟩
  | ok items =>
    obtain ⟨leftItems, rightItems, hleft, hright, -⟩ := exists_of_mapM_append hitems
    obtain ⟨leftValue, hleft⟩ := Operand.exists_hasValue hleft
    obtain ⟨rightValue, hright⟩ := Operand.exists_hasValue hright
    refine ⟨valueOrKind_withSigns hleft hright hcount, fun ho ↦ ?_⟩
    have htight : 2 ≤ o.priority := by rcases ho with rfl | rfl <;> decide
    rw [evaluate_withSigns_tight hleft hright htight hcount, evaluate_withFactor hleft hright]

theorem evaluate_product_with_sign :
    valueOrKind (evaluate [.number "6", .operator '*', .operator '-', .number "3"])
      = .ok (-18.0) := by
  have hsigns := evaluate_withSigns (.number "6") (.number "3") .multiply (Nat.zero_lt_succ 0)
  exact (hsigns.1 (.inr (.inr rfl))).trans (by decide +kernel)

/-- A quotient by a signed operand is not the quotient by that operand in parentheses, not even when
the signs cancel out. -/
theorem evaluate_quotient_with_signs :
    valueOrKind (evaluate (withSigns (.number "6") .divide 2 (.number "3"))) = .ok 18.0 ∧
      valueOrKind (evaluate (withSignedGroup (.number "6") .divide 2 (.number "3"))) = .ok 2.0 ∧
      valueOrKind (evaluate (withSigns (.number "6") .divide 1 (.number "3"))) = .ok (-18.0) ∧
      valueOrKind (evaluate (withSignedGroup (.number "6") .divide 1 (.number "3")))
        = .ok (-2.0) := by
  decide +kernel

end Calculator
