import Calculator.Proofs.Climbing.Depth

/-!
# Nested items

What may stand between two parentheses: items whose own parentheses match. Nested items stay nested
while they are read, and what a call looks at is the same in front of any closing parenthesis.

## Balanced tokens are nested items

Balanced tokens are counted from left to right, and nested items are built from the inside. The two
agree for any number of open parentheses: behind `depth` of them, nested items come in front of each
closing one and behind the last.
-/

namespace Calculator

namespace Climbing

/-- Whether an item may stand between parentheses; a number must be finite, and a function must have
a name of the given kind. -/
def Item.IsInner (named : String → Prop) : Item → Prop
  | function name => named name
  | number value => value.isFinite
  | operator _ => True
  | opening | closing => False

/-- Items whose parentheses match. -/
inductive Nested (named : String → Prop) : List Item → Prop where
  | nil : Nested named []
  | cons {item : Item} {rest : List Item} :
      item.IsInner named → Nested named rest → Nested named (item :: rest)
  | group {inner rest : List Item} :
      Nested named inner → Nested named rest →
        Nested named (.opening :: (inner ++ .closing :: rest))

variable {named : String → Prop} {body : List Item}

/-! ## In front of a closing parenthesis -/

theorem leading_append_closing (body rest : List Item) :
    leading (body ++ .closing :: rest) = leading body := by
  cases body with
  | nil => rfl
  | cons item body => cases item <;> rfl

theorem minusRun_append (odd : Bool) (body rest : List Item) :
    minusRun odd (body ++ .closing :: rest)
      = ((minusRun odd body).1, (minusRun odd body).2 ++ .closing :: rest) := by
  fun_induction minusRun odd body with
  | case1 odd body ih =>
    rw [List.cons_append, minusRun]
    exact ih
  | case2 odd body hbody =>
    cases body with
    | nil => rfl
    | cons item body =>
      rw [List.cons_append, minusRun]
      rintro items ⟨⟩
      exact hbody _ rfl

theorem binaryOperator_append (symbol : Char) (body rest : List Item) :
    binaryOperator symbol (body ++ .closing :: rest)
      = ((binaryOperator symbol body).1, (binaryOperator symbol body).2 ++ .closing :: rest) := by
  rw [binaryOperator, binaryOperator]
  split
  · rw [minusRun_append]
  · rfl

theorem Nested.minusRun (h : Nested named body) (odd : Bool) :
    Nested named (Climbing.minusRun odd body).2 := by
  fun_induction Climbing.minusRun odd body with
  | case1 odd body ih =>
    cases h with
    | cons _ h => exact ih h
  | case2 => exact h

theorem Nested.binaryOperator (h : Nested named body) (symbol : Char) :
    Nested named (Climbing.binaryOperator symbol body).2 := by
  rw [Climbing.binaryOperator]
  split
  · exact h.minusRun true
  · exact h

/-! ## Balanced tokens -/

/-- A token that is no parenthesis does not change what is open. -/
theorem balanced_cons {token : Token} (hopening : token ≠ .opening) (hclosing : token ≠ .closing)
    (depth : Nat) (tokens : List Token) :
    balanced depth (token :: tokens) = balanced depth tokens := by
  cases token with
  | opening => exact absurd rfl hopening
  | closing => exact absurd rfl hclosing
  | number _ | operator _ | function _ => cases depth <;> rfl

private theorem isInner_of_ofToken {token : Token} {item : Item} (hopening : token ≠ .opening)
    (hclosing : token ≠ .closing) (hnamed : ∀ name, token = .function name → named name)
    (hitem : Item.ofToken token = .ok item) : item.IsInner named := by
  cases token with
  | opening => exact absurd rfl hopening
  | closing => exact absurd rfl hclosing
  | number literal =>
    rw [Item.ofToken_number] at hitem
    cases hvalue : (Computation.literal literal).value with
    | error cause => rw [hvalue] at hitem; cases hitem
    | ok x =>
      rw [hvalue] at hitem
      cases hitem
      exact Computation.isFinite_of_value hvalue
  | operator symbol =>
    cases hitem
    trivial
  | function name =>
    cases hitem
    exact hnamed name rfl

theorem balanced_append {tokens : List Token} {opened : Nat} (h : balanced opened tokens)
    (depth : Nat) (rest : List Token) :
    balanced (opened + depth) (tokens ++ rest) = balanced depth rest := by
  -- Parentheses in the tokens move `opened` up and down; `depth` is never touched.
  induction tokens generalizing opened with
  | nil =>
    have hopened : opened = 0 := by simpa [balanced] using h
    rw [hopened, Nat.zero_add, List.nil_append]
  | cons token tokens ih =>
    rw [List.cons_append]
    by_cases hopening : token = .opening
    · subst hopening
      rw [balanced, Nat.add_right_comm]
      exact ih h
    by_cases hclosing : token = .closing
    · subst hclosing
      cases opened with
      | zero => cases h
      | succ opened =>
        rw [Nat.add_right_comm, balanced]
        exact ih h
    · rw [balanced_cons hopening hclosing] at h ⊢
      exact ih h

/-- What stands behind a list of tokens matters for its balance only by its own. -/
theorem balanced_append_congr {rest rest' : List Token}
    (h : ∀ depth, balanced depth rest = balanced depth rest') (before : List Token) (depth : Nat) :
    balanced depth (before ++ rest) = balanced depth (before ++ rest') := by
  induction before generalizing depth with
  | nil => exact h depth
  | cons token before ih =>
    rw [List.cons_append, List.cons_append]
    by_cases hopening : token = .opening
    · subst hopening
      exact ih (depth + 1)
    by_cases hclosing : token = .closing
    · subst hclosing
      cases depth with
      | zero => rfl
      | succ depth => exact ih depth
    · rw [balanced_cons hopening hclosing, balanced_cons hopening hclosing]
      exact ih depth

/-- The balance of tokens is that of their parentheses. -/
theorem balanced_map {f : Token → Token} (hopening : ∀ token, f token = .opening ↔ token = .opening)
    (hclosing : ∀ token, f token = .closing ↔ token = .closing) (depth : Nat)
    (tokens : List Token) : balanced depth (tokens.map f) = balanced depth tokens := by
  induction tokens generalizing depth with
  | nil => rfl
  | cons token tokens ih =>
    rw [List.map_cons]
    by_cases hopen : token = .opening
    · rw [(hopening token).mpr hopen, hopen]
      exact ih (depth + 1)
    by_cases hclose : token = .closing
    · rw [(hclosing token).mpr hclose, hclose]
      cases depth with
      | zero => rfl
      | succ depth => exact ih depth
    · rw [balanced_cons (mt (hopening token).mp hopen) (mt (hclosing token).mp hclose),
        balanced_cons hopen hclose]
      exact ih depth

theorem balanced_append_of_balanced {left right : List Token} (hleft : balanced 0 left)
    (hright : balanced 0 right) : balanced 0 (left ++ right) := by
  have h := balanced_append hleft 0 right
  rwa [Nat.add_zero, hright] at h

theorem balanced_enclosed {tokens : List Token} (h : balanced 0 tokens) :
    balanced 0 (.opening :: tokens ++ [.closing]) := by
  have h := balanced_append h 1 [.closing]
  rw [Nat.zero_add] at h
  rw [List.cons_append, balanced, h]
  rfl

/-- Nested items in front of each of `depth` closing parentheses, and behind the last. -/
def NestedBehind (named : String → Prop) : (depth : Nat) → List Item → Prop
  | 0, items => Nested named items
  | depth + 1, items => ∃ inner rest, items = inner ++ .closing :: rest ∧ Nested named inner ∧
      NestedBehind named depth rest

namespace NestedBehind

variable {depth : Nat} {item : Item} {items : List Item}

theorem cons (hitem : item.IsInner named) (h : NestedBehind named depth items) :
    NestedBehind named depth (item :: items) := by
  cases depth with
  | zero => exact Nested.cons hitem h
  | succ depth =>
    obtain ⟨inner, rest, rfl, hinner, hrest⟩ := h
    exact ⟨item :: inner, rest, rfl, .cons hitem hinner, hrest⟩

theorem opening (h : NestedBehind named (depth + 1) items) :
    NestedBehind named depth (.opening :: items) := by
  obtain ⟨inner, rest, rfl, hinner, hrest⟩ := h
  cases depth with
  | zero => exact Nested.group hinner hrest
  | succ depth =>
    obtain ⟨later, rest, rfl, hlater, hrest⟩ := hrest
    refine ⟨.opening :: (inner ++ .closing :: later), rest, ?_, .group hinner hlater, hrest⟩
    rw [List.cons_append, List.append_assoc, List.cons_append]

theorem closing (h : NestedBehind named depth items) :
    NestedBehind named (depth + 1) (.closing :: items) :=
  ⟨[], items, rfl, .nil, h⟩

end NestedBehind

private theorem nestedBehind_of_balanced {tokens : List Token} {depth : Nat} {items : List Item}
    (h : balanced depth tokens) (hitems : tokens.mapM Item.ofToken = .ok items)
    (hnamed : ∀ name, .function name ∈ tokens → named name) : NestedBehind named depth items := by
  -- From the left the tokens only tell how many parentheses are open, so the induction is on any
  -- number of them and the items are put together from the right.
  induction tokens generalizing depth items with
  | nil =>
    cases hitems
    have hdepth : depth = 0 := by simpa [balanced] using h
    subst hdepth
    exact Nested.nil
  | cons token tokens ih =>
    obtain ⟨item, rest, hitem, hrest, rfl⟩ := exists_of_mapM_cons hitems
    have hlater : ∀ {depth}, balanced depth tokens → NestedBehind named depth rest :=
      fun h ↦ ih h hrest fun name hname ↦ hnamed name (List.mem_cons_of_mem _ hname)
    by_cases hopening : token = .opening
    · subst hopening
      cases hitem
      exact (hlater h).opening
    by_cases hclosing : token = .closing
    · subst hclosing
      cases hitem
      cases depth with
      | zero => cases h
      | succ depth => exact (hlater h).closing
    · rw [balanced_cons hopening hclosing] at h
      refine (hlater h).cons (isInner_of_ofToken hopening hclosing ?_ hitem)
      rintro name rfl
      exact hnamed name List.mem_cons_self

/-- **Balanced tokens are nested items.** -/
theorem nested_of_balanced (named : String → Prop) {tokens : List Token} {items : List Item}
    (h : balanced 0 tokens) (hitems : tokens.mapM Item.ofToken = .ok items)
    (hnamed : ∀ name, .function name ∈ tokens → named name) : Nested named items :=
  nestedBehind_of_balanced h hitems hnamed

end Climbing

end Calculator
