import Calculator.Expression.Tree
import Calculator.Proofs.Expression.Written

/-!
# The value of a written tree

Writing a tree with parentheses only where they are needed and evaluating the tokens gives the value
of the tree, computed operands first and from left to right.

Each case of the induction is a rule for items that read as a value. What the rules ask of operands
without parentheses is just what keeps the printer from writing parentheses around them.
-/

namespace Calculator

open Climbing (Item ReadsAs Leaves tighter takesFrom)

namespace Tree

variable {t left right : Tree} {operator : Operator}

/-! ## Parentheses -/

/-- The priority of a tree's outermost operator, if it has one outside all parentheses. -/
def outerPriority (t : Tree) : Option Nat := t.outermost?.map Operator.priority

private theorem mem_looser_iff (inner operator : Operator) :
    inner ∈ looser operator ↔ inner.priority < operator.priority := by
  cases inner <;> cases operator <;> decide

private theorem mem_alike_iff (inner operator : Operator) :
    inner ∈ alike operator ↔ inner.priority = operator.priority := by
  cases inner <;> cases operator <;> decide

private theorem groupsRight_priority_iff (operator : Operator) :
    groupsRight operator.priority ↔ operator = .power := by
  cases operator <;> decide

private theorem not_leftNeedsGroup (h : ¬ leftNeedsGroup operator left) {p : Nat}
    (hp : left.outerPriority = some p) :
    operator.priority ≤ p ∧ ¬ takesFrom p operator.priority := by
  obtain ⟨inner, hinner, rfl⟩ := Option.map_eq_some_iff.mp hp
  rw [leftNeedsGroup, hinner, Option.any_some, decide_eq_true_iff, not_or, mem_looser_iff] at h
  obtain ⟨hlooser, hpowers⟩ := h
  refine ⟨Nat.not_lt.mp hlooser, ?_⟩
  rintro (htighter | ⟨halike, hright⟩)
  · exact hlooser htighter
  · have hpower := (groupsRight_priority_iff inner).mp hright
    rw [← halike, groupsRight_priority_iff] at hright
    exact hpowers ⟨hpower, hright⟩

private theorem not_rightNeedsGroup (h : ¬ rightNeedsGroup operator right) {p : Nat}
    (hp : right.outerPriority = some p) : tighter operator.priority ≤ p := by
  obtain ⟨inner, hinner, rfl⟩ := Option.map_eq_some_iff.mp hp
  rw [rightNeedsGroup, hinner, Option.any_some, decide_eq_true_iff, not_or, mem_looser_iff,
    mem_alike_iff] at h
  obtain ⟨hlooser, halike⟩ := h
  rw [tighter]
  split
  · exact Nat.not_lt.mp hlooser
  · next hleft =>
    rw [groupsRight_priority_iff] at hleft
    exact Nat.lt_of_le_of_ne (Nat.not_lt.mp hlooser) fun heq ↦ halike ⟨heq.symm, hleft⟩

private theorem one_le_of_outerPriority {p : Nat} (hp : t.outerPriority = some p) : 1 ≤ p := by
  obtain ⟨operator, -, rfl⟩ := Option.map_eq_some_iff.mp hp
  exact operator.one_le_priority

/-! ## Reading a tree -/

/-- Every literal of the tree is a finite number. -/
def LiteralsFinite (t : Tree) : Prop :=
  ∀ literal ∈ t.literals, (Number.read? literal).any Float.isFinite

instance (t : Tree) : Decidable t.LiteralsFinite :=
  inferInstanceAs (Decidable (∀ literal ∈ t.literals, _))

theorem LiteralsFinite.exists_literal (hfinite : t.LiteralsFinite) {text : String}
    (htext : text ∈ t.literals) : ∃ x, Meaning.literal text = .ok x := by
  have hread := hfinite text htext
  rw [Meaning.literal]
  cases hx : Number.read? text with
  | none =>
    rw [hx] at hread
    cases hread
  | some x =>
    rw [hx] at hread
    exact ⟨x, if_pos hread⟩

/-- The tokens write items that read as the tree's value. -/
def ReadsBack (tokens : List Token) (outer? : Option Nat) (value : Except EvalError Float) : Prop :=
  ∃ items, WritesItems tokens items ∧ ReadsAs items outer? value

theorem ReadsBack.enclosed {tokens : List Token} {outer? : Option Nat}
    {value : Except EvalError Float} (h : ReadsBack tokens outer? value)
    (houter : ∀ p, outer? = some p → 1 ≤ p) : ReadsBack (Tree.enclosed tokens) none value := by
  obtain ⟨items, hwrites, hreads⟩ := h
  exact ⟨_, hwrites.enclosed, hreads.enclosed houter⟩

private theorem readsBack (hfinite : t.LiteralsFinite) :
    ReadsBack t.tokens t.outerPriority t.value := by
  induction t with
  | number literal =>
    obtain ⟨x, hx⟩ := hfinite.exists_literal (List.mem_singleton.mpr rfl)
    refine ⟨_, .number ((Meaning.literal_eq literal).symm.trans hx), ?_⟩
    rw [value, hx]
    exact .number x
  | group inner ih =>
    exact (ih hfinite).enclosed fun _ ↦ one_le_of_outerPriority
  | application function argument ih =>
    obtain ⟨items, hwrites, hreads⟩ := ih hfinite
    simp only [value, Meaning.application_eq]
    exact ⟨_, (WritesItems.function function.name).append hwrites.enclosed,
      hreads.application function.name fun _ ↦ one_le_of_outerPriority⟩
  | combination operator left right ihleft ihright =>
    -- With parentheses an operand reads as a whole; without, its own operator keeps it together.
    have hleft : ∃ outer?, ReadsBack (if leftNeedsGroup operator left then enclosed left.tokens
          else left.tokens) outer? left.value ∧
        ∀ p, outer? = some p → operator.priority ≤ p ∧ ¬ takesFrom p operator.priority := by
      have hinner := ihleft fun literal h ↦ hfinite literal (List.mem_append_left _ h)
      split
      · exact ⟨none, hinner.enclosed fun _ ↦ one_le_of_outerPriority, fun _ h ↦ by cases h⟩
      · next hneeds => exact ⟨_, hinner, fun _ ↦ not_leftNeedsGroup hneeds⟩
    have hright : ∃ outer?, ReadsBack (if rightNeedsGroup operator right then enclosed right.tokens
          else right.tokens) outer? right.value ∧
        ∀ p, outer? = some p → tighter operator.priority ≤ p := by
      have hinner := ihright fun literal h ↦ hfinite literal (List.mem_append_right _ h)
      split
      · exact ⟨none, hinner.enclosed fun _ ↦ one_le_of_outerPriority, fun _ h ↦ by cases h⟩
      · next hneeds => exact ⟨_, hinner, fun _ ↦ not_rightNeedsGroup hneeds⟩
    obtain ⟨leftOuter?, ⟨leftItems, hwritesLeft, hreadsLeft⟩, hloose⟩ := hleft
    obtain ⟨rightOuter?, ⟨rightItems, hwritesRight, hreadsRight⟩, htight⟩ := hright
    refine ⟨_, hwritesLeft.append ((WritesItems.operator operator.symbol).append hwritesRight), ?_⟩
    simp only [value, Meaning.combination_eq]
    refine hreadsLeft.combination hreadsRight operator.priority_symbol (fun p hp ↦ (hloose p hp).1)
      ?_ htight
    rintro p q hp ⟨rfl⟩
    exact (hloose p hp).2

/-! ## Errors -/

theorem domain_of_value (hfinite : t.LiteralsFinite) {cause : EvalError}
    (h : t.value = .error cause) : ∃ what, cause = .domain what := by
  induction t with
  | number literal =>
    obtain ⟨x, hx⟩ := hfinite.exists_literal (List.mem_singleton.mpr rfl)
    rw [value, hx] at h
    cases h
  | group inner ih => exact ih hfinite h
  | application function argument ih =>
    rw [value] at h
    cases hargument : argument.value with
    | error cause' =>
      rw [hargument] at h
      cases h
      exact ih hfinite hargument
    | ok x =>
      rw [hargument, Climbing.ok_bind, Meaning.application_eq] at h
      exact ⟨_, Computation.domain_of_value (Computation.outcome_application function x) h⟩
  | combination operator left right ihleft ihright =>
    rw [value] at h
    cases hleft : left.value with
    | error cause' =>
      rw [hleft] at h
      cases h
      exact ihleft (fun literal hl ↦ hfinite literal (List.mem_append_left _ hl)) hleft
    | ok x =>
      cases hright : right.value with
      | error cause' =>
        rw [hleft, hright] at h
        cases h
        exact ihright (fun literal hl ↦ hfinite literal (List.mem_append_right _ hl)) hright
      | ok y =>
        rw [hleft, hright, Climbing.ok_bind, Climbing.ok_bind, Meaning.combination_eq] at h
        exact ⟨_, Computation.domain_of_value (Computation.outcome_combination x operator y) h⟩

/-- **Evaluating a written tree gives its value**, or the error of the first result in order that is
not finite. -/
theorem evaluate_tokens (t : Tree) (hfinite : t.LiteralsFinite) :
    evaluate t.tokens = t.value ∧
      ∀ cause, t.value = .error cause → ∃ what, cause = .domain what := by
  obtain ⟨items, hwrites, hreads⟩ := readsBack hfinite
  exact ⟨hwrites.evaluate_eq hreads fun _ ↦ one_le_of_outerPriority,
    fun _ ↦ domain_of_value hfinite⟩

/-- Powers grouped to either side, and a function. -/
def towers : Tree :=
  .combination .subtract
    (.combination .power (.combination .power (.number "2") (.number "2")) (.number "3"))
    (.combination .multiply
      (.combination .power (.number "2") (.combination .power (.number "2") (.number "3")))
      (.application .sqrt (.combination .add (.number "4") (.number "5"))))

/-- Only the tower that is grouped to the left has parentheses. -/
theorem evaluate_towers :
    evaluate [.opening, .number "2", .operator '&', .number "2", .closing, .operator '&',
        .number "3", .operator '-', .number "2", .operator '&', .number "2", .operator '&',
        .number "3", .operator '*', .function "sqrt", .opening, .number "4", .operator '+',
        .number "5", .closing]
      = (do
        let square ← Meaning.combination 2.0 '&' 2.0
        let left ← Meaning.combination square '&' 3.0
        let cube ← Meaning.combination 2.0 '&' 3.0
        let power ← Meaning.combination 2.0 '&' cube
        let root ← Meaning.application "sqrt" 9.0
        let right ← Meaning.combination power '*' root
        Meaning.combination left '-' right) := by
  have hfinite : towers.LiteralsFinite := by decide +kernel
  have htwo : Meaning.literal "2" = .ok 2.0 := by decide +kernel
  have hthree : Meaning.literal "3" = .ok 3.0 := by decide +kernel
  have hfour : Meaning.literal "4" = .ok 4.0 := by decide +kernel
  have hfive : Meaning.literal "5" = .ok 5.0 := by decide +kernel
  have hsum : Meaning.combination 4.0 '+' 5.0 = .ok 9.0 := by decide +kernel
  refine (evaluate_tokens towers hfinite).1.trans ?_
  simp only [towers, value, htwo, hthree, hfour, hfive, Climbing.ok_bind, bind_assoc,
    Operator.symbol, MathFunction.name, hsum]

end Tree

end Calculator
