import Calculator.Text.Ranges

/-!
# White space

The characters that count as white space in any script: the Unicode property of that name. A line of
nothing else is blank. There are more of them than the blanks that may stand between tokens.
-/

namespace Calculator.Text

/-- The ranges of code points that are white space. -/
def whiteSpaceRanges : Ranges :=
  [(0x09, 0x0D), (0x20, 0x20), (0x85, 0x85), (0xA0, 0xA0), (0x1680, 0x1680), (0x2000, 0x200A),
    (0x2028, 0x2029), (0x202F, 0x202F), (0x205F, 0x205F), (0x3000, 0x3000)]

/-- Whether a character is white space. -/
def isWhiteSpace (c : Char) : Bool := whiteSpaceRanges.has c

/-- Whether a text has no other characters than white space. -/
def isBlank (text : String) : Bool := text.toList.all isWhiteSpace

end Calculator.Text
