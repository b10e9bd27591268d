import Calculator.Text.Lines

/-!
# Line editors

A session does not read its input itself. It asks an editor for one line after the other, and the
editor also keeps a history of lines, which it may take from a file and put back there. How lines
are typed, corrected and shown is up to the editor: here it is whatever answers the questions of a
session.
-/

namespace Calculator

/-- What an editor answers when it is asked for a line. -/
inductive LineAnswer where
  | line (text : String)
  /-- The input has ended. -/
  | ended
  /-- The user wants to leave. -/
  | interrupted
  /-- There is no line, for the given cause. -/
  | failed (cause : String)
  /-- The editor has broken down. -/
  | crashed
deriving DecidableEq

/-- An editor for the lines of an input. -/
structure LineEditor where
  /-- What an editor keeps between two questions, such as the input that is left and the history. -/
  State : Type
  /-- An editor for an input, or why there is none. -/
  setUp : (input : String) → Except String State
  /-- Takes the history from a file, and tells whether that could be done. -/
  loadHistory : (file : String) → State → Bool × State
  /-- Asks for a line. The first part of the answer is what the editor prints by it. -/
  readLine : (prompt : String) → State → String × LineAnswer × State
  /-- Adds a line to the history. -/
  addHistory : (line : String) → State → State
  /-- Puts the history into a file, or tells why that cannot be done. -/
  saveHistory : (file : String) → State → Except String Unit
  /-- A bound on the number of lines to come. -/
  left : State → Nat
  left_readLine {prompt shown text : String} {s next : State} :
    readLine prompt s = (shown, .line text, next) → left next < left s
  left_addHistory (line : String) (s : State) : left (addHistory line s) ≤ left s

namespace LineEditor

/-- The character by which what was typed is taken back. -/
def backspace : Char := '\x08'

/-- An editor that shows nothing and keeps no history. It hands over one line of its input after the
other, each as `take` answers for it. -/
def ofLines (take : String → LineAnswer) : LineEditor where
  State := List String
  setUp input := .ok (Text.lines input)
  loadHistory _ lines := (false, lines)
  readLine _
    | [] => ("", .ended, [])
    | line :: lines => ("", take line, lines)
  addHistory _ lines := lines
  saveHistory _ _ := .ok ()
  left := List.length
  left_readLine {_ _ _ lines _} h := by
    cases lines with
    | nil => cases h
    | cons line lines =>
      obtain rfl := congrArg (·.2.2) h
      exact Nat.lt_succ_self lines.length
  left_addHistory _ _ := Nat.le_refl _

end LineEditor

end Calculator
