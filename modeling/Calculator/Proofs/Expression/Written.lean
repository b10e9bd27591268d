import Calculator.Proofs.Climbing.Congruence
import Calculator.Proofs.Climbing.Locality
import Calculator.Proofs.Evaluation.Refinement
import Calculator.Proofs.Expression.Reads

/-!
# Tokens that write items

Which tokens write which items, for tokens whose parentheses match among themselves. An expression
put together from such parts is read part by part, so its value follows from how the items read.
-/

namespace Calculator

open Climbing (IsCongruence Item ReadsAs readItems)

theorem mapM_append_of_ok {left right : List Token} {leftItems rightItems : List Item}
    (hleft : left.mapM Item.ofToken = .ok leftItems)
    (hright : right.mapM Item.ofToken = .ok rightItems) :
    (left ++ right).mapM Item.ofToken = .ok (leftItems ++ rightItems) := by
  rw [List.mapM_append, hleft, hright]
  rfl

/-- The tokens are read as the items, and their parentheses match. -/
structure WritesItems (tokens : List Token) (items : List Item) : Prop where
  balanced : Climbing.balanced 0 tokens
  reads : tokens.mapM Item.ofToken = .ok items

namespace WritesItems

variable {tokens left right : List Token} {items leftItems rightItems : List Item}

theorem append (hleft : WritesItems left leftItems) (hright : WritesItems right rightItems) :
    WritesItems (left ++ right) (leftItems ++ rightItems) where
  balanced := Climbing.balanced_append_of_balanced hleft.balanced hright.balanced
  reads := mapM_append_of_ok hleft.reads hright.reads

theorem enclosed (h : WritesItems tokens items) :
    WritesItems (.opening :: tokens ++ [.closing]) (.opening :: items ++ [.closing]) where
  balanced := Climbing.balanced_enclosed h.balanced
  reads := by
    rw [List.cons_append, List.mapM_cons, List.mapM_append, h.reads]
    rfl

theorem number {literal : String} {x : Float} (h : (Computation.literal literal).value = .ok x) :
    WritesItems [.number literal] [.number x] where
  balanced := rfl
  reads := by
    rw [List.mapM_cons, Item.ofToken_number, h]
    rfl

theorem operator (symbol : Char) : WritesItems [.operator symbol] [.operator symbol] := ⟨rfl, rfl⟩

theorem function (name : String) : WritesItems [.function name] [.function name] := ⟨rfl, rfl⟩

theorem readItems_eq (h : WritesItems tokens items) : readItems tokens = .ok items := by
  rw [readItems, if_pos h.balanced]
  exact h.reads

theorem of_readItems (h : readItems tokens = .ok items) : WritesItems tokens items := by
  rw [readItems] at h
  split at h
  · next hbalanced => exact ⟨hbalanced, h⟩
  · cases h

theorem evaluate_eq_readGroup (h : WritesItems tokens items) :
    evaluate tokens = Climbing.readGroup (items ++ [.closing]) >>= fun answer ↦ .ok answer.1 := by
  rw [evaluate_eq_readValue, readValue, h.readItems_eq]
  rfl

/-- **The value of an expression is what its items read as.** -/
theorem evaluate_eq {outer? : Option Nat} {value : Except EvalError Float}
    (h : WritesItems tokens items) (hvalue : ReadsAs items outer? value)
    (houter : ∀ p, outer? = some p → 1 ≤ p) :
    evaluate tokens = value := by
  rw [h.evaluate_eq_readGroup, hvalue.readGroup houter]
  cases value <;> rfl

end WritesItems

/-! ## Expressions with a value -/

/-- What is known of an expression with a value: it can be read, all of it makes the one group, and
the value is finite. -/
theorem exists_writesItems_of_evaluate {tokens : List Token} {x : Float}
    (h : evaluate tokens = .ok x) :
    ∃ items, WritesItems tokens items ∧
      Climbing.readGroup (items ++ [.closing]) = .ok (x, []) ∧ x.isFinite := by
  cases hitems : readItems tokens with
  | error cause =>
    rw [evaluate_eq_readValue, readValue, hitems] at h
    cases h
  | ok items =>
    have hwrites := WritesItems.of_readItems hitems
    have hnested := Climbing.nested_of_balanced (fun _ ↦ True) hwrites.balanced hwrites.reads
      fun _ _ ↦ trivial
    obtain ⟨r, hfinite, -, hr⟩ := Climbing.isLocalGroup hnested true
    have hread := hr [] rfl
    rw [hwrites.evaluate_eq_readGroup, hread] at h
    cases r with
    | error cause => cases h
    | ok y =>
      cases h
      exact ⟨items, hwrites, hread, hfinite _ rfl⟩

/-! ## Expressions that are read alike -/

/-- **Congruences keep the value of an expression**, or its error. The tokens must have the same
balance, and the first number among them that cannot be read must be the same. -/
theorem evaluate_eq_of_isCongruence {related : (ended : Bool) → List Item → List Item → Prop}
    (hrelated : IsCongruence related) {tokens tokens' : List Token}
    (hbalanced : Climbing.balanced 0 tokens = Climbing.balanced 0 tokens')
    (hitems : match tokens.mapM Item.ofToken with
      | .ok items => ∃ items', tokens'.mapM Item.ofToken = .ok items' ∧
          related false (items ++ [.closing]) (items' ++ [.closing])
      | .error cause => tokens'.mapM Item.ofToken = .error cause) :
    evaluate tokens = evaluate tokens' := by
  rw [evaluate_eq_readValue, evaluate_eq_readValue, readValue, readValue, readItems, readItems,
    hbalanced]
  split
  · cases hread : tokens.mapM Item.ofToken with
    | error cause =>
      rw [hread] at hitems
      rw [hitems]
    | ok items =>
      rw [hread] at hitems
      obtain ⟨items', hread', h⟩ := hitems
      rw [hread']
      exact (hrelated.alike_reading.2.1 _ _ h).value_eq
  · rfl

/-- One part of an expression is as good as another if no call tells their items apart, whatever
stands around them. -/
theorem evaluate_congr_part {related : (ended : Bool) → List Item → List Item → Prop}
    (hrelated : IsCongruence related) {part part' : List Token} {items items' : List Item}
    (h : WritesItems part items) (h' : WritesItems part' items')
    (hitems : ∀ before after, related false (before ++ items ++ after) (before ++ items' ++ after))
    (before after : List Token) :
    evaluate (before ++ part ++ after) = evaluate (before ++ part' ++ after) := by
  refine evaluate_eq_of_isCongruence hrelated ?_ ?_
  · rw [List.append_assoc, List.append_assoc]
    refine Climbing.balanced_append_congr (fun depth ↦ ?_) before 0
    have hpart := Climbing.balanced_append h.balanced depth after
    have hpart' := Climbing.balanced_append h'.balanced depth after
    rw [Nat.zero_add] at hpart hpart'
    rw [hpart, hpart']
  · rw [List.append_assoc, List.append_assoc, List.mapM_append, List.mapM_append, List.mapM_append,
      List.mapM_append, h.reads, h'.reads]
    cases before.mapM Item.ofToken with
    | error cause => rfl
    | ok beforeItems =>
      cases after.mapM Item.ofToken with
      | error cause => rfl
      | ok afterItems =>
        refine ⟨beforeItems ++ (items' ++ afterItems), rfl, ?_⟩
        simpa using hitems beforeItems (afterItems ++ [.closing])

end Calculator
