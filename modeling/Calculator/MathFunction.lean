/-!
# Named functions

The functions of one argument that an expression can apply. `log` is the logarithm to base ten and
`ln` the natural one; angles are in radians.
-/

namespace Calculator

/-- A function of one argument. -/
inductive MathFunction where
  | log
  | ln
  | exp
  | sqrt
  | abs
  | atan
  | acos
  | asin
  | sinh
  | cosh
  | tanh
  | tan
  | sin
  | cos
deriving DecidableEq, Repr, Inhabited

namespace MathFunction

/-- All functions, in the order in which they are listed for users. -/
def all : List MathFunction :=
  [log, ln, exp, sqrt, abs, atan, acos, asin, sinh, cosh, tanh, tan, sin, cos]

/-- The name of a function, in lower case. -/
def name : MathFunction → String
  | log => "log"
  | ln => "ln"
  | exp => "exp"
  | sqrt => "sqrt"
  | abs => "abs"
  | atan => "atan"
  | acos => "acos"
  | asin => "asin"
  | sinh => "sinh"
  | cosh => "cosh"
  | tanh => "tanh"
  | tan => "tan"
  | sin => "sin"
  | cos => "cos"

/-- The names of all functions. -/
def names : List String := all.map name

/-- The length of the longest name. -/
def longestName : Nat := (names.map String.length).foldl max 0

/-- The function of a name. -/
def ofName? (text : String) : Option MathFunction := all.find? fun f ↦ f.name = text

/-- The value of a function at a double. -/
def apply : MathFunction → Float → Float
  | log, x => x.log10
  | ln, x => x.log
  | exp, x => x.exp
  | sqrt, x => x.sqrt
  | abs, x => x.abs
  | atan, x => x.atan
  | acos, x => x.acos
  | asin, x => x.asin
  | sinh, x => x.sinh
  | cosh, x => x.cosh
  | tanh, x => x.tanh
  | tan, x => x.tan
  | sin, x => x.sin
  | cos, x => x.cos

theorem ofName?_name (f : MathFunction) : ofName? f.name = some f := by
  cases f <;> decide

theorem name_of_ofName? {text : String} {f : MathFunction} (h : ofName? text = some f) :
    f.name = text := by
  simpa using List.find?_some h

end MathFunction

end Calculator
