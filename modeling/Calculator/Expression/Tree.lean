import Calculator.Expression.Meaning
import Calculator.MathFunction
import Calculator.Operator

/-!
# Expression trees

An expression as a tree, its value, and the tokens that write it.

## Where parentheses are written

Parentheses are written only where the tokens would otherwise be read as another tree. That is said
for each operator: which operators bind looser and which alike, and that powers group to the right
and all others to the left.
-/

namespace Calculator

/-- An expression without minus signs in front of operands. -/
inductive Tree where
  | number (literal : String)
  | combination (operator : Operator) (left right : Tree)
  | application (function : MathFunction) (argument : Tree)
  /-- A tree in parentheses of its own. -/
  | group (inner : Tree)
deriving DecidableEq, Repr

namespace Tree

/-- The value of a tree, operands before operators and left before right; the first result that is
not finite is an error. -/
def value : Tree → Except EvalError Float
  | number literal => Meaning.literal literal
  | combination operator left right => do
    let x ← left.value
    let y ← right.value
    Meaning.combination x operator.symbol y
  | application function argument => do
    let x ← argument.value
    Meaning.application function.name x
  | group inner => inner.value

/-- The literals of a tree, from left to right. -/
def literals : Tree → List String
  | number literal => [literal]
  | combination _ left right => left.literals ++ right.literals
  | application _ argument => argument.literals
  | group inner => inner.literals

/-! ## Writing -/

/-- The operators that bind looser than an operator. -/
def looser : Operator → List Operator
  | .add | .subtract => []
  | .multiply | .divide => [.add, .subtract]
  | .power => [.add, .subtract, .multiply, .divide]

/-- The operators that bind as tightly as an operator, which is one of them. -/
def alike : Operator → List Operator
  | .add | .subtract => [.add, .subtract]
  | .multiply | .divide => [.multiply, .divide]
  | .power => [.power]

/-- A tree's outermost operator, if it has one outside all parentheses. -/
def outermost? : Tree → Option Operator
  | combination operator _ _ => some operator
  | number _ | application _ _ | group _ => none

/-- Whether a left operand of an operator needs parentheses: if it binds looser, or is a power of
which a power is taken. -/
def leftNeedsGroup (operator : Operator) (left : Tree) : Bool :=
  left.outermost?.any fun inner ↦ inner ∈ looser operator ∨ inner = .power ∧ operator = .power

/-- Whether a right operand of an operator needs parentheses: if it binds looser, or alike where the
operator groups to the left. -/
def rightNeedsGroup (operator : Operator) (right : Tree) : Bool :=
  right.outermost?.any fun inner ↦
    inner ∈ looser operator ∨ inner ∈ alike operator ∧ operator ≠ .power

/-- Tokens in parentheses. -/
def enclosed (tokens : List Token) : List Token := .opening :: tokens ++ [.closing]

/-- The tokens that write a tree. -/
def tokens : Tree → List Token
  | number literal => [.number literal]
  | combination operator left right =>
    let leftTokens := left.tokens
    let rightTokens := right.tokens
    (if leftNeedsGroup operator left then enclosed leftTokens else leftTokens) ++
      .operator operator.symbol ::
        (if rightNeedsGroup operator right then enclosed rightTokens else rightTokens)
  | application function argument => .function function.name :: enclosed argument.tokens
  | group inner => enclosed inner.tokens

end Tree

end Calculator
