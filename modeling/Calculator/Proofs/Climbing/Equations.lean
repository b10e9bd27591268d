import Calculator.Expression.Climbing
import Calculator.Proofs.Expression.Meaning

/-!
# One call of the plain reading

What one call of each function of precedence climbing does, by the items that it begins with. Only
the operator in front decides whether an expression goes on, so the priority of that operator is the
one thing that the equations for expressions and right operands ask for.
-/

namespace Calculator

namespace Climbing

/-- The priority of the operator that items begin with. -/
def leading : List Item → Option Nat
  | .operator symbol :: _ => priority symbol
  | _ => none

/-- Whether an operator of priority `q` takes a right operand from one of priority `p` on its
left. -/
def takesFrom (p q : Nat) : Prop := p < q ∨ q = p ∧ groupsRight p

instance (p q : Nat) : Decidable (takesFrom p q) := inferInstanceAs (Decidable (_ ∨ _))

/-- Items that begin with an operator. -/
theorem exists_of_leading {items : List Item} {p : Nat} (h : leading items = some p) :
    ∃ symbol rest, items = .operator symbol :: rest ∧ priority symbol = some p := by
  cases items with
  | nil => cases h
  | cons item rest =>
    cases item with
    | operator symbol => exact ⟨symbol, rest, rfl, h⟩
    | _ => cases h

variable {depth : Nat} {items rest : List Item}

/-! ## Groups and operands -/

theorem group_cons {item : Item} (hitem : item ≠ .closing) (depth : Nat) (items : List Item) :
    group (depth + 1) (item :: items) = (do
      let (x, items) ← operand depth (item :: items)
      let (x, items) ← expression depth x 1 items
      match items with
      | .closing :: items => return (x, items)
      | item :: _ => throw (.unexpectedToken item.text)
      | [] => throw .unclosedGroup) := by
  cases item with
  | closing => exact absurd rfl hitem
  | _ => rfl

/-- No operand begins with a closing parenthesis or with an operator that is no minus sign. -/
theorem operand_missing {item : Item} (hitem : item = .closing ∨ ∃ symbol, symbol ≠ '-' ∧
    item = .operator symbol) (depth : Nat) (items : List Item) :
    operand (depth + 1) (item :: items)
      = throw (.missingOperand (if items = [] then none else some item.text)) := by
  rcases hitem with rfl | ⟨symbol, hsymbol, rfl⟩
  · cases items <;> rfl
  · cases items with
    | nil => simp [operand, hsymbol]
    | cons item' items => simp [operand, hsymbol]

/-- A function applied to an argument, with what is behind it. -/
def applyTo (name : String) : Float × List Item → Answer
  | (x, items) =>
    match (Computation.application name x).value with
    | .ok y => return (y, items)
    | .error cause => throw cause

theorem operand_function (depth : Nat) (name : String) (items : List Item) :
    operand (depth + 1) (.function name :: .opening :: items)
      = group depth items >>= applyTo name := by
  rw [operand]
  simp only [Meaning.application_eq]
  rfl

/-- A run of minus signs ends in front of any other item. -/
theorem minusRun_cons {item : Item} (hitem : item ≠ .operator '-') (odd : Bool)
    (items : List Item) : minusRun odd (item :: items) = (odd, item :: items) := by
  rw [minusRun]
  rintro rest ⟨⟩
  exact hitem rfl

/-- The factor that a run of minus signs becomes, and the product in front of what follows. -/
def signOf : Bool × List Item → Answer
  | (_, []) => throw (.missingOperand none)
  | (odd, items) => return (if odd then -1.0 else 1.0, .operator '*' :: items)

theorem isFinite_sign (odd : Bool) : (if odd then -1.0 else 1.0 : Float).isFinite := by
  cases odd <;> decide

theorem operand_minus (depth : Nat) (items : List Item) :
    operand (depth + 1) (.operator '-' :: items) = signOf (minusRun true items) := rfl

/-! ## Expressions and right operands -/

/-- Either items begin with an operator that has a priority, or no call reads on. -/
theorem leading_cases (items : List Item) :
    (∃ symbol rest p, items = .operator symbol :: rest ∧ priority symbol = some p) ∨
      leading items = none ∧
        (∀ depth x least, expression (depth + 1) x least items = pure (x, items)) ∧
        ∀ depth y p, rightOperand (depth + 1) y p items = pure (y, items) := by
  cases items with
  | nil => exact .inr ⟨rfl, fun _ _ _ ↦ rfl, fun _ _ _ ↦ rfl⟩
  | cons item rest =>
    cases item with
    | operator symbol =>
      cases hp : priority symbol with
      | some p => exact .inl ⟨symbol, rest, p, rfl, hp⟩
      | none =>
        refine .inr ⟨hp, fun _ _ _ ↦ ?_, fun _ _ _ ↦ ?_⟩
        · simp only [expression, Meaning.tightness_eq, hp]
        · simp only [rightOperand, Meaning.tightness_eq, hp]
    | _ => exact .inr ⟨rfl, fun _ _ _ ↦ rfl, fun _ _ _ ↦ rfl⟩

/-- An expression ends where no operator of its priority or above follows. -/
theorem expression_end {least : Nat} (hend : ∀ p, leading items = some p → p < least)
    (depth : Nat) (x : Float) : expression (depth + 1) x least items = pure (x, items) := by
  rcases leading_cases items with ⟨symbol, rest, p, rfl, hp⟩ | ⟨-, hexpression, -⟩
  · simp only [expression, Meaning.tightness_eq, hp, if_pos (hend p hp)]
  · exact hexpression depth x least

/-- What an expression does behind its first operator, of priority `p`: the right operand, the
combination, and what follows. -/
def foldOperator (depth : Nat) (x : Float) (least p : Nat) : Char × List Item → Answer
  | (_, []) => throw (.missingOperand none)
  | (symbol, items) => do
    let (y, items) ← operand depth items
    let (y, items) ← rightOperand depth y p items
    match (Computation.combination x symbol y).value with
    | .ok z => expression depth z least items
    | .error cause => throw cause

theorem expression_operator {least p : Nat} {symbol : Char} (hp : priority symbol = some p)
    (hleast : least ≤ p) (depth : Nat) (x : Float) (rest : List Item) :
    expression (depth + 1) x least (.operator symbol :: rest)
      = foldOperator depth x least p (binaryOperator symbol rest) := by
  simp only [expression, Meaning.tightness_eq, Meaning.combination_eq, hp,
    if_neg (Nat.not_lt.mpr hleast)]
  rcases binaryOperator symbol rest with ⟨symbol, _ | ⟨item, rest⟩⟩
  · rfl
  · rfl

theorem rightOperand_end {p : Nat} (hend : ∀ q, leading items = some q → ¬ takesFrom p q)
    (depth : Nat) (y : Float) : rightOperand (depth + 1) y p items = pure (y, items) := by
  rcases leading_cases items with ⟨symbol, rest, q, rfl, hq⟩ | ⟨-, -, hright⟩
  · simp only [rightOperand, Meaning.tightness_eq, Meaning.groupsRight_eq, hq]
    exact if_neg (hend q hq)
  · exact hright depth y p

theorem rightOperand_operator {p q : Nat} (hq : leading items = some q) (htakes : takesFrom p q)
    (depth : Nat) (y : Float) :
    rightOperand (depth + 1) y p items = (do
      let (y, rest) ← expression depth y q items
      rightOperand depth y p rest) := by
  obtain ⟨symbol, rest, rfl, hpriority⟩ := exists_of_leading hq
  rw [rightOperand]
  simp only [Meaning.tightness_eq, Meaning.groupsRight_eq, hpriority]
  exact if_pos htakes

/-! ## Whole expressions -/

/-- The items of an expression whose parentheses match. -/
def readItems (tokens : List Token) : Except EvalError (List Item) :=
  if balanced 0 tokens then tokens.mapM Item.ofToken else .error .unmatchedParentheses

theorem Item.ofToken_number (literal : String) :
    Item.ofToken (.number literal) = (Computation.literal literal).value.map .number := by
  rw [Item.ofToken, Meaning.literal_eq]

/-- Only numbers are changed when they are read. -/
theorem eq_of_ofToken {token : Token} {item : Item} (h : Item.ofToken token = .ok item) :
    match item with
    | .number _ => ∃ literal, token = .number literal
    | .operator symbol => token = .operator symbol
    | .function name => token = .function name
    | .opening => token = .opening
    | .closing => token = .closing := by
  cases token with
  | number literal =>
    rw [Item.ofToken_number] at h
    cases hvalue : (Computation.literal literal).value with
    | error cause => rw [hvalue] at h; cases h
    | ok x =>
      rw [hvalue] at h
      cases h
      exact ⟨literal, rfl⟩
  | _ =>
    cases h
    rfl

theorem exists_of_mapM_cons {token : Token} {tokens : List Token} {items : List Item}
    (h : (token :: tokens).mapM Item.ofToken = .ok items) :
    ∃ item rest, Item.ofToken token = .ok item ∧ tokens.mapM Item.ofToken = .ok rest ∧
      items = item :: rest := by
  rw [List.mapM_cons] at h
  cases hitem : Item.ofToken token with
  | error cause => rw [hitem] at h; cases h
  | ok item =>
    cases hrest : tokens.mapM Item.ofToken with
    | error cause => rw [hitem, hrest] at h; cases h
    | ok rest =>
      rw [hitem, hrest] at h
      cases h
      exact ⟨item, rest, rfl, rfl, rfl⟩

theorem evaluateWithin_eq (depth : Nat) (tokens : List Token) :
    evaluateWithin depth tokens = match readItems tokens with
      | .error cause => some (.error cause)
      | .ok items =>
        (group depth (items ++ [.closing])).run.map fun answer ↦ answer.map Prod.fst := by
  rw [evaluateWithin, readItems]
  split <;> rfl

end Climbing

end Calculator
