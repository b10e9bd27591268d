import Calculator.Proofs.Evaluation.Record
import Calculator.Proofs.Lexer.Answers

/-!
# The log tells the same story as the result

What is logged while a text is evaluated comes in a fixed order: the tokens as they are read, then
either the lexical error or the reduction of what was prepared, and one ending. The ending is a
value if the text has one and a failure if it has none, and it tells of the text that is answered.
All this is said of the events and, once more, of the words they are logged with.

## No event out of its place

The reduction reports its beginning before the first task and its value behind the last, and between
them its record has only changes. Where it stops with an error, nothing has been said of a value,
and the failure is the first that is said of an end.
-/

namespace Calculator

open Log Reduction Sequence

/-! ## Events -/

namespace Log.Event

/-- Whether an event tells how an evaluation ended. -/
def isEnding : Event → Bool
  | result _ | failed _ _ => true
  | token _ | lexError _ | reducing _ | unaryMinusRun _ | binaryMinusRun | application _ _ _
  | combination _ _ _ _ | noHistory _ => false

/-- The changes are the trace of the reduction. -/
theorem isChange_iff (event : Event) :
    event.isChange ↔ event.level = .trace ∧ event.target = "scieval::reduce" := by
  cases event <;> simp [isChange, level, target]

private theorem not_isEnding_of_isChange {event : Event} (h : event.isChange) :
    event.isEnding = false := by
  cases event <;> first | rfl | cases h

end Log.Event

/-- How the log tells that the evaluation of a text ended. -/
def endingEvent (text : String) : Except Error Float → Event
  | .ok x => .result x
  | .error cause => .failed text cause.message

/-- What the log tells behind the tokens of a text and in front of the ending: the lexical error, or
how the prepared sequence is reduced, or nothing if there is none. -/
def middleEvents (tokens : List Token) : Option LexError → List Event
  | some cause => [.lexError cause]
  | none =>
    match prepare tokens with
    | .ok s => .reducing s :: (Evaluation.ofSequence s).events.filter Event.isChange
    | .error _ => []

/-! ## Wording -/

/-- How the log words the middle events: an error with its message, and a reduction with the text of
the prepared sequence. -/
def middleTexts (tokens : List Token) : Option LexError → List String
  | some cause => ["lex error: " ++ cause.message]
  | none =>
    match prepare tokens with
    | .ok s =>
      ("reducing " ++ s.text)
        :: ((Evaluation.ofSequence s).events.filter Event.isChange).map Event.message
    | .error _ => []

/-- How the log words the ending: with the text that is answered, or with the expression and the
message of its error. -/
def endingText (text : String) : Except Error Float → String
  | .ok _ => "result " ++ eval text
  | .error cause => "eval '" ++ text ++ "' failed: " ++ cause.message

variable {text : String} {tokens : List Token} {failure : Option LexError}

private theorem map_message_middleEvents (tokens : List Token) (failure : Option LexError) :
    (middleEvents tokens failure).map Event.message = middleTexts tokens failure := by
  cases failure with
  | some cause => rfl
  | none =>
    rw [middleEvents, middleTexts]
    cases prepare tokens <;> rfl

private theorem message_endingEvent (text : String) :
    (endingEvent text (evaluateText text)).message = endingText text (evaluateText text) := by
  cases hresult : evaluateText text with
  | error cause => rfl
  | ok x =>
    rw [endingText, eval, hresult]
    rfl

/-! ## Endings -/

theorem isEnding_endingEvent (text : String) (outcome : Except Error Float) :
    (endingEvent text outcome).isEnding := by
  cases outcome <;> rfl

private theorem filter_isEnding_middleEvents (tokens : List Token) (failure : Option LexError) :
    (middleEvents tokens failure).filter Event.isEnding = [] := by
  cases failure with
  | some cause => rfl
  | none =>
    rw [middleEvents]
    split
    · refine List.filter_eq_nil_iff.mpr fun event hevent ↦ Bool.eq_false_iff.mp ?_
      rcases List.mem_cons.mp hevent with rfl | htrace
      · rfl
      · exact Event.not_isEnding_of_isChange (List.mem_filter.mp htrace).2
    · rfl

/-! ## The phases -/

/-- The log of a reduction is its beginning, its changes, and its value if it has one. -/
theorem events_ofSequence (text : String) (s : Sequence) :
    (Evaluation.ofSequence s).events
        ++ failureEvents text ((Evaluation.ofSequence s).value.mapError Error.eval)
      = (.reducing s :: (Evaluation.ofSequence s).events.filter Event.isChange)
        ++ [endingEvent text ((Evaluation.ofSequence s).value.mapError Error.eval)] := by
  obtain ⟨steps, hrecord, hhistory⟩ := exists_record s
  have hevents := congrArg (fun steps ↦ steps.reverse.filterMap Step.event?) hhistory
  simp only [List.reverse_reverse, List.reverse_append, List.filterMap_append] at hevents
  have htrace : ∀ event ∈ steps.reverse.filterMap Step.event?, event.isChange := by
    intro event hevent
    obtain ⟨step, hstep, htold⟩ := List.mem_filterMap.mp hevent
    cases step <;> cases htold
    exact hrecord.isChange event (List.mem_reverse.mp hstep)
  rw [Evaluation.events, hevents, List.filter_append, List.filter_append,
    List.filter_eq_self.mpr htrace, Evaluation.value]
  cases (Evaluation.ofSequence s).result <;>
    simp [Step.ofResult, Step.event?, Event.isChange, Except.mapError, failureEvents, endingEvent]

/-- Preparation tells nothing, so the log begins with a reduction or has an ending alone. -/
theorem events_ofTokens (text : String) (tokens : List Token) :
    (Evaluation.ofTokens tokens).events
        ++ failureEvents text ((evaluate tokens).mapError Error.eval)
      = middleEvents tokens none
        ++ [endingEvent text ((evaluate tokens).mapError Error.eval)] := by
  rw [evaluate, Evaluation.ofTokens, middleEvents]
  cases prepare tokens with
  | error cause => rfl
  | ok s => exact events_ofSequence text s

private theorem evalEvents_of_items
    (hitems : (Lexer.ofString text).items = Lexer.itemsOf tokens failure) :
    evalEvents text = tokens.map .token
      ++ (middleEvents tokens failure ++ [endingEvent text (evaluateText text)]) := by
  have houtcome := (congrArg (List.mapM id) hitems).trans (Lexer.mapM_itemsOf tokens failure)
  have htokenize : tokenize text = Token.outcome tokens failure := houtcome
  have hread : tokens.map (Event.ofLexItem ∘ .ok) = tokens.map Event.token := rfl
  rw [evalEvents, evaluateText, htokenize]
  simp only [houtcome]
  rw [hitems, Lexer.itemsOf, List.map_append, List.map_map, hread, List.append_assoc]
  cases failure with
  | some cause => rfl
  | none => exact congrArg _ (events_ofTokens text tokens)

/-! ## The whole log -/

/-- The log of the evaluation of a text, in order: its tokens, the middle part, and an ending that
tells of what is answered. -/
structure TellsStory (text : String) (tokens : List Token) (failure : Option LexError)
    (ending : Event) : Prop where
  /-- The tokens, and the failure behind them, are what the lexer answers. -/
  answers : ∀ earlier,
    (Lexer.ofString text).answer earlier = (Lexer.itemsOf tokens failure)[earlier]?
  events : evalEvents text
    = tokens.map .token ++ (middleEvents tokens failure ++ [ending])
  /-- The words of the whole log. -/
  messages : (evalEvents text).map Event.message
    = tokens.map (fun token ↦ "token " ++ token.describe)
      ++ (middleTexts tokens failure ++ [endingText text (evaluateText text)])
  result : ∀ x, evaluateText text = .ok x →
    ending = .result x ∧ ending.message = "result " ++ eval text
  failed : ∀ cause, evaluateText text = .error cause →
    ending = .failed text cause.message ∧ eval text = "ERROR: " ++ cause.message ∧
      ending.message = "eval '" ++ text ++ "' failed: " ++ cause.message
  /-- Nothing else tells of an end. -/
  filter_isEnding : (evalEvents text).filter Event.isEnding = [ending]

/-- **The log tells the same story as the result**, for every text. -/
theorem log_tells_result (text : String) :
    ∃ tokens failure ending, TellsStory text tokens failure ending := by
  have hstart : (Scanner.ofList text.toList).Sees 0 [] text.toList := Scanner.Sees.start rfl
  obtain ⟨tokens, failure, -, hitems⟩ := Lexer.items_eq hstart
  have hevents := evalEvents_of_items hitems
  refine ⟨tokens, failure, endingEvent text (evaluateText text), ?_⟩
  refine ⟨fun earlier ↦ ?_, hevents, ?_, fun x hx ↦ ?_, fun cause hcause ↦ ?_, ?_⟩
  · rw [Lexer.answer_eq (Lexer.isReady_ofString text)]
    exact congrArg (·[earlier]?) hitems
  · rw [hevents, List.map_append, List.map_append, List.map_map, map_message_middleEvents,
      List.map_singleton, message_endingEvent]
    rfl
  · rw [eval, hx]
    exact ⟨rfl, rfl⟩
  · rw [eval, hcause]
    exact ⟨rfl, rfl, rfl⟩
  · have htokens : (tokens.map Event.token).filter Event.isEnding = [] := by
      simp [List.filter_eq_nil_iff, Event.isEnding]
    rw [hevents, List.filter_append, List.filter_append, htokens, filter_isEnding_middleEvents]
    exact List.filter_cons_of_pos (isEnding_endingEvent text _)

end Calculator
