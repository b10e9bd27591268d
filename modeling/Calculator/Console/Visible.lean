/-!
# Visible control characters

A log must not steer the terminal that shows it. So the control characters that a terminal acts on
are written out, each as the code that stands for it in a quoted text. All other characters stand
for themselves, and line ends are among these.
-/

namespace Calculator.Console

/-- The code point of a character in hexadecimal digits. -/
def hexadecimal (c : Char) : List Char := Nat.toDigits 16 c.toNat

/-- A character so that it can be seen. Control characters of seven bits have a code of two digits,
and the others their code point in braces. -/
def visibleChar (c : Char) : List Char :=
  match c with
  | '\x07' => ['\\', 'x', '0', '7']
  | '\x08' => ['\\', 'x', '0', '8']
  | '\x0c' => ['\\', 'x', '0', 'c']
  | '\x1b' => ['\\', 'x', '1', 'b']
  | '\x7f' => ['\\', 'x', '7', 'f']
  | c =>
    if 0x80 ≤ c.toNat ∧ c.toNat ≤ 0x9F then ['\\', 'u', '\x7b'] ++ hexadecimal c ++ ['\x7d']
    else [c]

/-- A text with its control characters written out. -/
def visible (text : String) : String := String.ofList (text.toList.flatMap visibleChar)

end Calculator.Console
