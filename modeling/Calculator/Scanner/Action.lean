import Calculator.Scanner.Rules

/-!
# Actions on a scanner

Everything that can be done with a scanner of characters, as data. A run is a list of actions, so a
law about every run is a law about every list.
-/

namespace Calculator.Scanner

/-- One thing to do with a scanner of characters. -/
inductive Action where
  | next
  | peek
  | current
  | setPosition (position : Int)
  | ignore
  | extract
  | extractText
  | accept (character : Char)
  | acceptAny (characters : List Char)
  | skipAll (characters : List Char)
  | ignoreBlanks
  | scanNumber
  | scanParenthesis
  | scanOperator
  | scanFunction
deriving DecidableEq, Repr

/-- What an action answers. -/
inductive Answer where
  | nothing
  | character (found : Option Char)
  | characters (found : List Char)
  | text (found : Option String)
  | flag (yes : Bool)
deriving DecidableEq, Repr

/-- Wraps up what an action finds as an answer. -/
def Answer.via {α β γ : Type} (answer : β → γ) (action : Scan α β) : Scan α γ := fun s ↦
  let (found, s) := action s
  (answer found, s)

/-- Does what an action says. -/
def Action.perform : Action → Scan Char Answer
  | .next => Answer.via .character Scanner.next
  | .peek => Answer.via .character Scanner.peek
  | .current => fun s ↦ (.character s.current, s)
  | .setPosition position => Answer.via .flag (Scanner.setPosition position)
  | .ignore => Answer.via (fun _ ↦ .nothing) Scanner.ignore
  | .extract => Answer.via .characters Scanner.extract
  | .extractText => Answer.via (fun text ↦ .text (some text)) Scanner.extractText
  | .accept c => Answer.via .character (Scanner.accept c)
  | .acceptAny cs => Answer.via .character (Scanner.acceptAny cs)
  | .skipAll cs => Answer.via .flag (Scanner.skipAll cs)
  | .ignoreBlanks => Answer.via (fun _ ↦ .nothing) Scanner.ignoreBlanks
  | .scanNumber => Answer.via .text Scanner.scanNumber
  | .scanParenthesis => Answer.via .character Scanner.scanParenthesis
  | .scanOperator => Answer.via .character Scanner.scanOperator
  | .scanFunction => Answer.via .text Scanner.scanFunction

end Calculator.Scanner
