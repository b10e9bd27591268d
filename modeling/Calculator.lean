import Calculator.Expression.Climbing
import Calculator.Expression.Grammar
import Calculator.Expression.MinusRuns
import Calculator.Expression.Tree
import Calculator.Main
import Calculator.Proofs.Evaluation.Safety
import Calculator.Proofs.Expression.Grammar
import Calculator.Proofs.Expression.Signed
import Calculator.Proofs.Expression.Tree
import Calculator.Scanner.Action
import Calculator.Token.Spelling
import Calculator.Proofs.Climbing.Congruence
import Calculator.Proofs.Climbing.Extension
import Calculator.Proofs.Expression.Groups
import Calculator.Proofs.Expression.MinusRuns
import Calculator.Proofs.Token.Longest
import Calculator.Proofs.Token.Munch
import Calculator.Proofs.Token.Writes
import Calculator.Proofs.Scanner.Rules
import Calculator.Proofs.Lexer.Munch
import Calculator.Proofs.Lexer.Written
import Calculator.Proofs.Sequence.Listing
import Calculator.Proofs.Evaluation.Finiteness
import Calculator.Proofs.Evaluation.Termination
import Calculator.Proofs.Scanner.Window
import Calculator.Proofs.Sequence.Links
import Calculator.Proofs.Sequence.Counting
import Calculator.Proofs.Session.Lines
import Calculator.Proofs.Evaluation.Feedback
import Calculator.Proofs.Sequence.Pairing
import Calculator.Proofs.Session.Arguments
import Calculator.Proofs.Lexer.Answers
import Calculator.Proofs.Scanner.LookAhead
import Calculator.Proofs.Scanner.AllOrNothing
import Calculator.Proofs.Sequence.Rendering
import Calculator.Proofs.Evaluation.LetterCase
import Calculator.Proofs.Evaluation.Deeds
import Calculator.Proofs.Reduction.Calls
import Calculator.Proofs.Evaluation.Record
import Calculator.Proofs.Evaluation.Story
import Calculator.Proofs.Evaluation.Groups
import Calculator.Proofs.Evaluation.Brackets
import Calculator.Proofs.Reduction.Rounds
import Calculator.Proofs.Evaluation.Contract
