import Calculator.Token

/-!
# Runs of minus signs

A maximal run of minus signs stands between two operands if an operand ends right before it, and in
front of an operand otherwise. Which of the two it is can be seen from the token before the run, and
only the parity of its length matters.
-/

namespace Calculator

/-- Whether an operand can end with a token. -/
def Token.endsOperand : Token → Bool
  | .number _ | .closing => true
  | .operator _ | .function _ | .opening => false

/-- A maximal run of minus signs. -/
structure MinusRun where
  /-- Whether an operand ends right before the run. -/
  isBinary : Bool
  length : Nat
deriving DecidableEq, Repr

namespace MinusRun

/-- What a run amounts to: an operator between operands, or a factor in front of one. -/
def replacement (run : MinusRun) : List Token :=
  if run.length = 0 then []
  else if run.isBinary then [.operator (if run.length % 2 = 1 then '-' else '+')]
  else [.number (if run.length % 2 = 1 then "-1" else "1"), .operator '*']

/-- The runs of a token list that goes on with `tokens` behind the unfinished run `run`. -/
def runsFrom (run : MinusRun) : List Token → List MinusRun
  | [] => if run.length = 0 then [] else [run]
  | .operator '-' :: tokens => runsFrom ⟨run.isBinary, run.length + 1⟩ tokens
  | token :: tokens =>
    let later := runsFrom ⟨token.endsOperand, 0⟩ tokens
    if run.length = 0 then later else run :: later

/-- The tokens behind the unfinished run `run`, that run included, with every run replaced. -/
def collapseFrom (run : MinusRun) : List Token → List Token
  | [] => run.replacement
  | .operator '-' :: tokens => collapseFrom ⟨run.isBinary, run.length + 1⟩ tokens
  | token :: tokens => run.replacement ++ token :: collapseFrom ⟨token.endsOperand, 0⟩ tokens

end MinusRun

/-- The maximal runs of minus signs in a token list, in order. -/
def minusRuns (tokens : List Token) : List MinusRun := MinusRun.runsFrom ⟨false, 0⟩ tokens

/-- A token list with every run of minus signs replaced by what it amounts to. -/
def collapseMinusRuns (tokens : List Token) : List Token := MinusRun.collapseFrom ⟨false, 0⟩ tokens

end Calculator
