import Calculator.Evaluation
import Calculator.LineEditor
import Calculator.Text.WhiteSpace

/-!
# Sessions

What the program does: it evaluates its arguments as one expression, or without arguments each line
that its line editor hands over and that is not blank. Every result is printed on a line of its own,
errors too, so what is evaluated never makes a session fail. No line knows of another.

## How a session ends

A session with arguments succeeds. One without arguments ends where the editor has no further line
or the user wants to leave. It fails if there is no editor, if a line cannot be read, or if the
history cannot be kept; and where the editor breaks down, the session does so too.
-/

namespace Calculator

/-- How a session ended. -/
inductive Ending where
  | success
  /-- Something around the expressions went wrong. -/
  | failure (cause : String)
  | crash
deriving DecidableEq

/-- The exit code of an ending. -/
def Ending.code : Ending → UInt8
  | success => 0
  | failure _ => 1
  | crash => 101

/-- What a session leaves behind. -/
structure Session where
  /-- The printed text. -/
  output : String
  /-- The lines of the log, in order. -/
  log : List Log.Event
  ending : Ending

namespace Session

/-- A session that ends at once. -/
def ended (ending : Ending) : Session := ⟨"", [], ending⟩

/-- Prints a text before a session goes on. -/
def printing (text : String) (session : Session) : Session :=
  { session with output := text ++ session.output }

theorem printing_empty (session : Session) : session.printing "" = session := by
  rw [printing, String.empty_append]

/-- Logs events before a session goes on. -/
def logging (events : List Log.Event) (session : Session) : Session :=
  { session with log := events ++ session.log }

/-- Evaluates an expression and prints what comes of it before a session goes on. -/
def evaluating (expression : String) (session : Session) : Session :=
  (session.printing (eval expression ++ "\n")).logging (evalEvents expression)

/-! ## Lines -/

/-- What asks for a line. -/
def prompt : String := "~> "

/-- The file for the history in a home directory. -/
def historyFile (home : String) : String :=
  if home = "" ∨ home.toList.getLast? = some '/' then home ++ ".scieval_history"
  else home ++ "/.scieval_history"

variable (editor : LineEditor)

/-- Takes up the history of earlier sessions, if there is a place for it. -/
def resume (file? : Option String) (s : editor.State) : List Log.Event × editor.State :=
  match file? with
  | none => ([], s)
  | some file =>
    match editor.loadHistory file s with
    | (true, s) => ([], s)
    | (false, s) => ([.noHistory file], s)

/-- Keeps the history for later sessions, if there is a place for it. -/
def keep (file? : Option String) (s : editor.State) : Ending :=
  match file? with
  | none => .success
  | some file =>
    match editor.saveHistory file s with
    | .ok () => .success
    | .error cause => .failure cause

/-- Asks for lines and evaluates those that are not blank, until there is none. -/
def converse (file? : Option String) (s : editor.State) : Session :=
  match h : editor.readLine prompt s with
  | (shown, .line text, s') =>
    have := editor.left_readLine h
    if Text.isBlank text then (converse file? s').printing shown
    else
      have := editor.left_addHistory text s'
      ((converse file? (editor.addHistory text s')).evaluating text).printing shown
  | (shown, .ended, s') | (shown, .interrupted, s') =>
    (ended (keep editor file? s')).printing shown
  | (shown, .failed cause, _) => (ended (.failure ("Readline err: " ++ cause))).printing shown
  | (shown, .crashed, _) => (ended .crash).printing shown
termination_by editor.left s
decreasing_by all_goals omega

/-- A conversation by the answer to its first question. -/
theorem converse_eq (file? : Option String) (s : editor.State) :
    converse editor file? s = match editor.readLine prompt s with
      | (shown, .line text, s') =>
        if Text.isBlank text then (converse editor file? s').printing shown
        else ((converse editor file? (editor.addHistory text s')).evaluating text).printing shown
      | (shown, .ended, s') | (shown, .interrupted, s') =>
        (ended (keep editor file? s')).printing shown
      | (shown, .failed cause, _) => (ended (.failure ("Readline err: " ++ cause))).printing shown
      | (shown, .crashed, _) => (ended .crash).printing shown := by
  rw [converse]
  split <;> simp only [*]

/-! ## Whole sessions -/

/-- The expression that arguments make. -/
def joined (arguments : List String) : String := " ".intercalate arguments

/-- The session with given arguments and input, where `home?` is the directory for the history. -/
def run (arguments : List String) (input : String) (home? : Option String) : Session :=
  match arguments with
  | [] =>
    match editor.setUp input with
    | .error cause => ended (.failure cause)
    | .ok s =>
      let file? := home?.map historyFile
      let (events, s) := resume editor file? s
      (converse editor file? s).logging events
  | _ :: _ => (ended .success).evaluating (joined arguments)

theorem output_run_cons (argument : String) (arguments : List String) (input : String)
    (home? : Option String) :
    (run editor (argument :: arguments) input home?).output
      = eval (joined (argument :: arguments)) ++ "\n" :=
  String.append_empty

/-- The events that a reader of the log sees who asks for a level by the given text. Texts are read
by `levelOf?`, where `some none` asks for nothing. With no text to be read the log is off. -/
def shownLog (levelOf? : String → Option (Option Log.Level)) (session : Session)
    (setting : Option String) : List Log.Event :=
  let threshold := (setting.bind levelOf?).getD none
  session.log.filter fun event ↦ Log.isShown threshold event.level

end Session

end Calculator
