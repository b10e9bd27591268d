/-!
# Lines

A line ends at a line feed, and a carriage return right before that line feed belongs to the end.
The last line may have no end; then a carriage return at its end is part of it.
-/

namespace Calculator.Text

/-- A reversed line without the carriage return of its end. -/
def dropReturn : List Char → List Char
  | '\r' :: line => line
  | line => line

/-- The lines of a text, behind a line that began with the reversed characters `begun`. -/
def linesFrom (begun : List Char) : List Char → List String
  | [] => if begun.isEmpty then [] else [String.ofList begun.reverse]
  | c :: rest =>
    if c = '\n' then String.ofList (dropReturn begun).reverse :: linesFrom [] rest
    else linesFrom (c :: begun) rest

/-- The lines of a text, without their ends. -/
def lines (text : String) : List String := linesFrom [] text.toList

end Calculator.Text
