import Calculator.Console.Backspace
import Calculator.Console.Level
import Calculator.Console.Visible
import Calculator.Session

/-!
# The command line

Reads the arguments, the standard input and the environment, and prints what the session says. The
log goes to the standard error, and so does the cause where a session fails.
-/

namespace Calculator

/-- The variable of the environment that asks for a level of the log. -/
def logVariable : String := "SCIEVAL_LOG"

end Calculator

open Calculator in
/-- Runs a session and prints it. -/
def main (arguments : List String) : IO UInt32 := do
  let input ← if arguments.isEmpty then (← IO.getStdin).readToEnd else pure ""
  let session := Session.run Console.editor arguments input (← IO.getEnv "HOME")
  for event in session.shownLog Console.levelOf? (← IO.getEnv logVariable) do
    let message := Console.visible event.message
    IO.eprintln (Console.levelLabel event.level ++ " " ++ event.target ++ ": " ++ message)
  IO.print session.output
  if let .failure cause := session.ending then IO.eprintln ("Error: " ++ cause.quote)
  return session.ending.code.toUInt32
