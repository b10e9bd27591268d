import Calculator.Expression.Tree
import Calculator.Proofs.Climbing.Extension
import Calculator.Proofs.Expression.Written

/-!
# Groups and their values

Inside any expression a group may be replaced by its value in parentheses, and nothing changes: the
result is the same double, or the same error with the same data. What stands around the group need
not be an expression, and its parentheses need not match.

The parentheses around the value are part of the law. A function takes its argument in parentheses
only, and where a group stands in a wrong place the parenthesis is what the error shows.
-/

namespace Calculator

open Climbing (Item ReadsAs)

/-! ## Groups replaced by their values -/

namespace Climbing

variable {content items items' : List Item} {x : Float}

/-- Items in which some groups of the given content are replaced by a number in parentheses. -/
inductive Swaps (content : List Item) (x : Float) : List Item → List Item → Prop where
  | nil : Swaps content x [] []
  | cons (item : Item) {rest rest' : List Item} :
      Swaps content x rest rest' → Swaps content x (item :: rest) (item :: rest')
  | group {rest rest' : List Item} : Swaps content x rest rest' →
      Swaps content x (.opening :: (content ++ .closing :: rest))
        (.opening :: .number x :: .closing :: rest')

namespace Swaps

theorem refl (items : List Item) : Swaps content x items items := by
  induction items with
  | nil => exact .nil
  | cons item items ih => exact .cons item ih

theorem append (h : Swaps content x items items') (before : List Item) :
    Swaps content x (before ++ items) (before ++ items') := by
  induction before with
  | nil => exact h
  | cons item before ih => exact .cons item ih

/-- One group of the content among other items. -/
theorem part (before after : List Item) :
    Swaps content x (before ++ (.opening :: content ++ [.closing]) ++ after)
      (before ++ (.opening :: [.number x] ++ [.closing]) ++ after) := by
  have hgroup : Swaps content x (.opening :: (content ++ .closing :: after))
      (.opening :: .number x :: .closing :: after) := .group (.refl after)
  simpa using hgroup.append before

theorem minusRun (h : Swaps content x items items') (odd : Bool) :
    (Climbing.minusRun odd items).1 = (Climbing.minusRun odd items').1 ∧
      Swaps content x (Climbing.minusRun odd items).2 (Climbing.minusRun odd items').2 := by
  induction h generalizing odd with
  | nil => exact ⟨rfl, .nil⟩
  | group h => exact ⟨rfl, .group h⟩
  | cons item h ih =>
    by_cases hitem : item = .operator '-'
    · subst hitem
      exact ih (!odd)
    · rw [minusRun_cons hitem, minusRun_cons hitem]
      exact ⟨rfl, .cons item h⟩

theorem binaryOperator (h : Swaps content x items items') (symbol : Char) :
    (Climbing.binaryOperator symbol items).1 = (Climbing.binaryOperator symbol items').1 ∧
      Swaps content x (Climbing.binaryOperator symbol items).2
        (Climbing.binaryOperator symbol items').2 := by
  rw [Climbing.binaryOperator, Climbing.binaryOperator]
  split
  · obtain ⟨hodd, hitems⟩ := h.minusRun true
    dsimp only
    rw [hodd]
    exact ⟨rfl, hitems⟩
  · exact ⟨rfl, h⟩

/-- Signs in front of related items are the same factor. -/
theorem readOperand_minus (h : Swaps content x items items') :
    Alike (Swaps content x) (readOperand (.operator '-' :: items))
      (readOperand (.operator '-' :: items')) := by
  rw [Climbing.readOperand_minus, Climbing.readOperand_minus]
  obtain ⟨hodd, hitems⟩ := h.minusRun true
  generalize Climbing.minusRun true items = run at hodd hitems
  generalize Climbing.minusRun true items' = run' at hodd hitems
  obtain ⟨odd, rest⟩ := run
  obtain ⟨_, rest'⟩ := run'
  cases hodd
  dsimp only at hitems
  cases hitems with
  | nil => exact .error _
  | cons item h => exact .ok _ (.cons _ (.cons item h))
  | group h => exact .ok _ (.cons _ (.group h))

end Swaps

/-- Replacing a group by its value is a congruence. -/
theorem isCongruence_swaps
    (hcontent : ∀ rest, readGroup (content ++ .closing :: rest) = .ok (x, rest)) :
    IsCongruence fun _ ↦ Swaps content x where
  operands h := by
    cases h with
    | nil => exact .nil
    | group h =>
      refine .group ?_
      rw [hcontent, ← List.singleton_append, (ReadsAs.number x).readGroup (by rintro _ ⟨⟩)]
      exact .ok x h
    | cons item h =>
      by_cases hitem : item = .operator '-'
      · subst hitem
        exact .minus (by rintro ⟨⟩) (by rintro ⟨⟩) h.readOperand_minus
      · exact .cons hitem h
  operators h := by
    cases h with
    | nil => exact .nil
    | group h => exact .stop (by rintro ⟨⟩) rfl
    | cons item h => exact .cons h fun symbol _ ↦ h.binaryOperator symbol

end Climbing

/-! ## Expressions with a group in them -/

variable {content : List Token} {literal : String} {x : Float}

private theorem evaluate_enclosed_literal (hx : (Computation.literal literal).value = .ok x) :
    evaluate (Tree.enclosed [.number literal]) = .ok x :=
  (WritesItems.number hx).enclosed.evaluate_eq ((ReadsAs.number x).enclosed (by rintro _ ⟨⟩))
    (by rintro _ ⟨⟩)

/-- **A group is interchangeable with its value**, whatever stands before and behind it. In
particular parentheses around a whole expression change nothing. -/
theorem evaluate_group_eq_value (before after : List Token)
    (hvalue : evaluate content = .ok x) (hliteral : Number.read? literal = some x) :
    evaluate (before ++ Tree.enclosed content ++ after)
        = evaluate (before ++ Tree.enclosed [.number literal] ++ after) ∧
      evaluate (Tree.enclosed content) = .ok x := by
  obtain ⟨items, hwrites, hread, hfinite⟩ := exists_writesItems_of_evaluate hvalue
  have hx : (Computation.literal literal).value = .ok x := by
    refine Computation.value_of_outcome ?_ hfinite
    rw [Computation.outcome, hliteral]
  have hcontent : ∀ rest, Climbing.readGroup (items ++ .closing :: rest) = .ok (x, rest) := by
    intro rest
    have h := Climbing.readGroup_append hread rest
    rwa [List.append_assoc] at h
  have hinside : ∀ before after,
      evaluate (before ++ Tree.enclosed content ++ after)
        = evaluate (before ++ Tree.enclosed [.number literal] ++ after) :=
    evaluate_congr_part (Climbing.isCongruence_swaps hcontent) hwrites.enclosed
      (WritesItems.number hx).enclosed Climbing.Swaps.part
  refine ⟨hinside before after, ?_⟩
  simpa [evaluate_enclosed_literal hx] using hinside [] []

/-- A function is applied to a sum as to its value, also where a power takes the result. -/
theorem evaluate_application_of_sum :
    evaluate [.function "exp", .opening, .number "2", .operator '+', .number "3e0", .closing,
        .operator '&', .operator '-', .number "1"]
      = evaluate [.function "exp", .opening, .number "5.0", .closing, .operator '&',
        .operator '-', .number "1"] := by
  have hvalue : evaluate [.number "2", .operator '+', .number "3e0"] = .ok 5.0 := by
    decide +kernel
  have hliteral : Number.read? "5.0" = some 5.0 := by decide +kernel
  exact (evaluate_group_eq_value [.function "exp"] [.operator '&', .operator '-', .number "1"]
    hvalue hliteral).1

end Calculator
