import Calculator.Error
import Calculator.Number.Literal

/-!
# What words mean

The meaning of literals, operators and functions, by the words themselves. A reading of an
expression rests on this and on nothing that a reduction looks up, so where the two agree, the
tables of the reduction are right.
-/

namespace Calculator.Meaning

/-- A number that came about in the given way, which must be finite. -/
def finite (what : Computation) (x : Float) : Except EvalError Float :=
  if x.isFinite then .ok x else .error (.domain what)

/-! ## Operators -/

/-- How tightly the operator of a character binds: sums and differences the least, powers the
most. -/
def tightness : Char → Option Nat
  | '+' | '-' => some 1
  | '*' | '/' => some 2
  | '&' => some 3
  | _ => none

/-- Whether operators that bind so tightly group to the right, as powers do: `2&2&3` is the power
of `2` by `2&3`. -/
def groupsRight : Nat → Bool
  | 3 => true
  | _ => false

/-- The value of an operator between two numbers. -/
def combination (x : Float) (symbol : Char) (y : Float) : Except EvalError Float :=
  let value := finite (.combination x symbol y)
  match symbol with
  | '+' => value (x + y)
  | '-' => value (x - y)
  | '*' => value (x * y)
  | '/' => value (x / y)
  | '&' => value (x.pow y)
  | _ => .error (.unknownOperator symbol)

/-! ## Literals and functions -/

/-- The value of a literal. -/
def literal (text : String) : Except EvalError Float :=
  match Number.read? text with
  | some x => finite (.literal text) x
  | none => .error (.badLiteral text)

/-- The value of a function at a number. -/
def application (name : String) (x : Float) : Except EvalError Float :=
  let value := finite (.application name x)
  match name with
  | "log" => value x.log10
  | "ln" => value x.log
  | "exp" => value x.exp
  | "sqrt" => value x.sqrt
  | "abs" => value x.abs
  | "atan" => value x.atan
  | "acos" => value x.acos
  | "asin" => value x.asin
  | "sinh" => value x.sinh
  | "cosh" => value x.cosh
  | "tanh" => value x.tanh
  | "tan" => value x.tan
  | "sin" => value x.sin
  | "cos" => value x.cos
  | _ => .error (.unknownFunction name)

end Calculator.Meaning
