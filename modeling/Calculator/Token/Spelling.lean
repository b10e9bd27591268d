import Calculator.Lexer
import Calculator.Number.Literal

/-!
# How tokens are spelled

Which texts are tokens, and what a text of tokens means when the longest token is always taken. The
spelling of a token is looked at as a whole, without a scanner: it is one of the four kinds or none.
-/

namespace Calculator

namespace Token

/-- The characters that may stand between tokens: spaces, tabs, carriage returns and line feeds. -/
def isBlank (c : Char) : Bool := c = ' ' ∨ c = '\t' ∨ c = '\r' ∨ c = '\n'

/-- Digits, at least one. -/
def areDigits (text : List Char) : Bool := !text.isEmpty && text.all Char.isDigit

/-- Nothing, or an exponent marker, an optional sign and digits. -/
def isExponent : List Char → Bool
  | [] => true
  | marker :: rest =>
    (marker = 'e' || marker = 'E') && areDigits (Number.splitSign rest).2

/-- Digits, then nothing or a point with digits behind it, then nothing or an exponent. -/
def isNumberText (text : List Char) : Bool :=
  let rest := text.dropWhile Char.isDigit
  areDigits (text.takeWhile Char.isDigit) &&
    match rest with
    | '.' :: fraction =>
      areDigits (fraction.takeWhile Char.isDigit) && isExponent (fraction.dropWhile Char.isDigit)
    | rest => isExponent rest

/-- The token that a text spells. -/
def ofSpelling? (text : List Char) : Option Token :=
  let name := String.ofList (text.map Char.toLower)
  if isNumberText text then some (number (String.ofList text))
  else if text = ['('] then some opening
  else if text = [')'] then some closing
  else if name ∈ MathFunction.names then some (function name)
  else
    match text with
    | [c] => (Operator.ofChar? c).map fun _ ↦ operator c
    | _ => none

/-- The token that the longest part of a text's beginning spells, with one less than the length of
that part; the text has at most `length` characters. -/
def longestWithin (text : List Char) : (length : Nat) → Option (Token × Nat)
  | 0 => none
  | n + 1 =>
    match ofSpelling? (text.take (n + 1)) with
    | some token => some (token, n)
    | none => longestWithin text n

/-- The tokens of a text, each the longest possible, with blanks between them left out; the text is
what stands from `position` on. -/
def munch (position : Nat) (text : List Char) : Except LexError (List Token) :=
  match text with
  | [] => .ok []
  | c :: rest =>
    if isBlank c then munch (position + 1) rest
    else
      match longestWithin (c :: rest) (rest.length + 1) with
      | none => .error ⟨position, c⟩
      | some (token, n) => do return token :: (← munch (position + n + 1) (rest.drop n))
termination_by text.length

/-! ## Written token lists -/

/-- The texts that write a token: letters of a function name in any case. -/
def IsWrittenAs : Token → List Char → Prop
  | function name, text => text.map Char.toLower = name.toList
  | token, text => text = token.text.toList

/-- Whether a token is a number. -/
def isNumber : Token → Bool
  | number _ => true
  | _ => false

end Token

/-- The texts that write a token list: the tokens in order, with blanks around and between them, and
at least one blank between two numbers. -/
inductive Writes : List Token → List Char → Prop where
  | nil {blanks : List Char} : blanks.all Token.isBlank → Writes [] blanks
  | cons {token : Token} {tokens : List Token} {blanks spelling rest : List Char} :
      blanks.all Token.isBlank → token.IsWrittenAs spelling → Writes tokens rest →
      (token.isNumber → (tokens.head?.any Token.isNumber) → rest.head?.any Token.isBlank) →
      Writes (token :: tokens) (blanks ++ spelling ++ rest)

end Calculator
