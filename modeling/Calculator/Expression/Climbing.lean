import Calculator.Expression.Meaning

/-!
# Precedence climbing on lists

The value of an expression read once from left to right, without a sequence that is changed on the
way. Each function takes the items that are left and gives back those it did not use. This is the
plain reading of an expression, to which a reduction in place can be compared; what words mean is
stated for it on its own.

## Order of errors

First the parentheses must match over the whole expression. Then every number is read, in order.
Only then is anything computed, and the first error from left to right wins.

## A bound on the depth

Functions that call one another count down a bound on how deep the calls are nested. Without an
answer within the bound the result is `none`, which no error can be mistaken for.
-/

namespace Calculator.Climbing

/-! ## Items -/

/-- A word of an expression whose numbers are read. -/
inductive Item where
  | number (value : Float)
  | operator (symbol : Char)
  | function (name : String)
  | opening
  | closing
deriving DecidableEq

/-- The text of an item as it stands in an expression. -/
def Item.text : Item → String
  | number value => Number.text value
  | operator symbol => symbol.toString
  | function name => name
  | opening => "("
  | closing => ")"

/-- The item of a token; a number is read. -/
def Item.ofToken : Token → Except EvalError Item
  | .number literal => (Meaning.literal literal).map number
  | .operator symbol => .ok (operator symbol)
  | .function name => .ok (function name)
  | .opening => .ok opening
  | .closing => .ok closing

/-- Whether the parentheses match behind `depth` open ones. -/
def balanced : (depth : Nat) → List Token → Bool
  | depth, [] => depth = 0
  | depth, .opening :: tokens => balanced (depth + 1) tokens
  | 0, .closing :: _ => false
  | depth + 1, .closing :: tokens => balanced depth tokens
  | depth, _ :: tokens => balanced depth tokens

/-! ## Values -/

/-- An answer: a value and the items behind it, an error, or nothing within the bound. -/
abbrev Answer := ExceptT EvalError Option (Float × List Item)

/-- A minus run behind its first sign: whether its length, counted on from `odd`, is odd, and the
items behind it. -/
def minusRun : (odd : Bool) → List Item → Bool × List Item
  | odd, .operator '-' :: items => minusRun (!odd) items
  | odd, items => (odd, items)

/-- A binary operator behind its first character: a run of minus signs is one operator. -/
def binaryOperator (symbol : Char) (items : List Item) : Char × List Item :=
  if symbol = '-' then
    let (odd, items) := minusRun true items
    (if odd then '-' else '+', items)
  else (symbol, items)

mutual

/-- A group behind its opening parenthesis. -/
def group : (depth : Nat) → List Item → Answer
  | 0, _ => ExceptT.mk none
  | depth + 1, items =>
    match items with
    | [] | .closing :: _ => throw .emptyGroup
    | items => do
      let (x, items) ← operand depth items
      let (x, items) ← expression depth x 1 items
      match items with
      | .closing :: items => return (x, items)
      | item :: _ => throw (.unexpectedToken item.text)
      | [] => throw .unclosedGroup

/-- An operand: a number, a group, a function with its argument, or the factor that a run of minus
signs becomes. The product of that factor is put in front of what follows. -/
def operand : (depth : Nat) → List Item → Answer
  | 0, _ => ExceptT.mk none
  | depth + 1, items =>
    match items with
    | .number x :: items => return (x, items)
    | .opening :: items => group depth items
    | .function name :: .opening :: items => do
      let (x, items) ← group depth items
      match Meaning.application name x with
      | .ok y => return (y, items)
      | .error cause => throw cause
    | .function name :: _ => throw (.missingArgument name)
    | .operator '-' :: items =>
      match minusRun true items with
      | (_, []) => throw (.missingOperand none)
      | (odd, items) => return (if odd then -1.0 else 1.0, .operator '*' :: items)
    -- The last item closes the outer group and stands for the end of input.
    | item :: _ :: _ => throw (.missingOperand (some item.text))
    | _ => throw (.missingOperand none)

/-- Folds operators of priority `least` and above into the number `x` on their left. -/
def expression : (depth : Nat) → (x : Float) → (least : Nat) → List Item → Answer
  | 0, _, _, _ => ExceptT.mk none
  | depth + 1, x, least, items =>
    match items with
    | .operator symbol :: rest =>
      match Meaning.tightness symbol with
      | none => return (x, items)
      | some p =>
        if p < least then return (x, items)
        else
          match binaryOperator symbol rest with
          | (_, []) => throw (.missingOperand none)
          | (symbol, rest) => do
            let (y, rest) ← operand depth rest
            let (y, rest) ← rightOperand depth y p rest
            match Meaning.combination x symbol y with
            | .ok z => expression depth z least rest
            | .error cause => throw cause
    | _ => return (x, items)

/-- Folds operators into the right operand `y` of an operator of priority `p`, while they bind
tighter or, where that priority groups to the right, equally tight. -/
def rightOperand : (depth : Nat) → (y : Float) → (p : Nat) → List Item → Answer
  | 0, _, _, _ => ExceptT.mk none
  | depth + 1, y, p, items =>
    match items with
    | .operator symbol :: _ =>
      match Meaning.tightness symbol with
      | none => return (y, items)
      | some q =>
        if p < q ∨ q = p ∧ Meaning.groupsRight p then do
          let (y, rest) ← expression depth y q items
          rightOperand depth y p rest
        else return (y, items)
    | _ => return (y, items)

end

/-- The value of an expression, within a bound on the depth. -/
def evaluateWithin (depth : Nat) (tokens : List Token) : Option (Except EvalError Float) :=
  if balanced 0 tokens then
    match tokens.mapM Item.ofToken with
    | .error cause => some (.error cause)
    | .ok items => (group depth (items ++ [.closing])).run.map fun answer ↦ answer.map Prod.fst
  else some (.error .unmatchedParentheses)

/-- A depth that every expression of so many tokens keeps to. -/
def depthBound (tokens : List Token) : Nat := 8 * (tokens.length + 2)

/-- The value of an expression. -/
def evaluate (tokens : List Token) : Option (Except EvalError Float) :=
  evaluateWithin (depthBound tokens) tokens

end Calculator.Climbing
