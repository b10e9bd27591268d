import Calculator.Computation
import Calculator.Sequence.Basic

/-!
# Prepared sequences

Before its value is computed, an expression becomes a sequence of cells in which each parenthesis
knows its partner, each number is read, and one more pair of parentheses encloses everything. The
outer pair lets the whole expression be reduced like any group.

## Which error wins

Parentheses are paired over the whole expression before any number is read, so unmatched parentheses
win over a number that cannot be read; of several such numbers the first wins.
-/

namespace Calculator.Sequence

/-- The tokens in order, each as a cell of its own. -/
def ofTokens (tokens : List Token) : Sequence :=
  tokens.foldl (fun s token ↦ s.pushBack (.lexeme token)) empty

/-- Pairs the parentheses of the tokens from handle `h` on. The handles of the parentheses that are
open there are on a stack, the last one on top. -/
def pairFrom (h : Handle) :
    List Token → (stack : List Handle) → Sequence → Except EvalError Sequence
  | [], [], s => .ok s
  | [], _ :: _, _ => .error .unmatchedParentheses
  | .opening :: tokens, stack, s => pairFrom (h + 1) tokens (h :: stack) s
  | .closing :: _, [], _ => .error .unmatchedParentheses
  | .closing :: tokens, opening :: stack, s =>
    pairFrom (h + 1) tokens stack ((s.set opening (.opening h)).set h (.closing opening))
  | _ :: tokens, stack, s => pairFrom (h + 1) tokens stack s

/-- A cell that is a token no more: numbers are read, operators and functions taken over. -/
def settle : Cell → Except EvalError Cell
  | .lexeme (.number literal) => (Computation.literal literal).value.map Cell.number
  | .lexeme (.operator symbol) => .ok (.operator symbol)
  | .lexeme (.function name) => .ok (.function name)
  | .lexeme token => .error (.unlinkedParenthesis token.text)
  | cell => .ok cell

/-- Settles every cell, in order. -/
def settleAll (s : Sequence) : Except EvalError Sequence := do
  let slots ← s.slots.mapM fun slot ↦ do return { slot with cell := ← settle slot.cell }
  return { s with slots }

/-- Puts a pair of parentheses around everything. -/
def enclose (s : Sequence) : Sequence :=
  let opening := s.slots.size
  let closing := opening + 1
  (s.pushFront (.opening closing)).pushBack (.closing opening)

/-- The prepared sequence of an expression. -/
def prepare (tokens : List Token) : Except EvalError Sequence := do
  let paired ← pairFrom 0 tokens [] (ofTokens tokens)
  let settled ← settleAll paired
  return settled.enclose

end Calculator.Sequence
