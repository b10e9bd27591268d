import Calculator.Console.Backspace
import Calculator.Session
import Mathlib.Data.List.Forall2

/-!
# One line is one session

A session without arguments prints, line by line, what sessions with one argument print, so no line
can change what another one shows. The argument is the line as the editor hands it over. A line that
is blank then is passed over, and one that is not handed over ends the session.

## What editors do

Editors are not part of the calculator. All that is relied on is that an editor whose input is no
terminal asks for nothing and hands over the lines of the input in order, and that it changes a line
only where there is a backspace in it. What it makes of such a line is up to the editor. Whether it
can keep its history decides about the exit code, and about nothing that is shown.

## Where lines end

A line ends at a line feed or at a carriage return with a line feed behind it, and what stands
behind the last end is a line if it is not empty. The lines of a text are found from left to right
with the beginning of a line held back in reverse, so the text that the induction speaks about is
that beginning and the text behind it.
-/

namespace Calculator

open LineEditor (backspace)

namespace Text

/-- The lines of a text, each with one of the two ends or at the end of the text. -/
inductive HasLines : List Char → List String → Prop where
  | nothing : HasLines [] []
  | unended {line : List Char} : line ≠ [] → '\n' ∉ line → HasLines line [String.ofList line]
  | feed {line rest : List Char} {lines : List String} :
      '\n' ∉ line → line.getLast? ≠ some '\r' → HasLines rest lines →
      HasLines (line ++ '\n' :: rest) (String.ofList line :: lines)
  | returnFeed {line rest : List Char} {lines : List String} :
      '\n' ∉ line → HasLines rest lines →
      HasLines (line ++ '\r' :: '\n' :: rest) (String.ofList line :: lines)

private theorem dropReturn_of_head?_ne {begun : List Char} (hreturn : begun.head? ≠ some '\r') :
    Text.dropReturn begun = begun := by
  rw [Text.dropReturn]
  rintro line rfl
  exact hreturn rfl

/-- A line begun in reverse, up to the line feed that stands behind it. -/
theorem HasLines.dropReturn {begun rest : List Char} {lines : List String} (hbegun : '\n' ∉ begun)
    (hrest : HasLines rest lines) :
    HasLines (begun.reverse ++ '\n' :: rest)
      (String.ofList (Text.dropReturn begun).reverse :: lines) := by
  by_cases hreturn : begun.head? = some '\r'
  · obtain ⟨line, rfl⟩ := List.head?_eq_some_iff.mp hreturn
    have hline : '\n' ∉ line.reverse := fun h ↦
      hbegun (List.mem_cons_of_mem _ (List.mem_reverse.mp h))
    rw [List.reverse_cons, List.append_assoc, List.singleton_append]
    exact .returnFeed hline hrest
  · rw [dropReturn_of_head?_ne hreturn]
    exact .feed (mt List.mem_reverse.mp hbegun) (by simpa using hreturn) hrest

private theorem hasLines_linesFrom {begun : List Char} (hbegun : '\n' ∉ begun) (text : List Char) :
    HasLines (begun.reverse ++ text) (linesFrom begun text) := by
  induction text generalizing begun with
  | nil =>
    rw [List.append_nil, linesFrom]
    cases begun with
    | nil => exact .nothing
    | cons c begun => exact .unended (by simp) (mt List.mem_reverse.mp hbegun)
  | cons c rest ih =>
    rw [linesFrom]
    split
    · next hfeed =>
      subst hfeed
      exact (ih List.not_mem_nil).dropReturn hbegun
    · next hother =>
      have hmore : '\n' ∉ c :: begun := by
        rw [List.mem_cons, not_or]
        exact ⟨Ne.symm hother, hbegun⟩
      simpa using ih hmore

/-- What stands before the next line feed is held back. -/
theorem linesFrom_append {line : List Char} (hline : '\n' ∉ line) (begun rest : List Char) :
    linesFrom begun (line ++ rest) = linesFrom (line.reverse ++ begun) rest := by
  induction line generalizing begun with
  | nil => rfl
  | cons c line ih =>
    rw [List.mem_cons, not_or] at hline
    rw [List.cons_append, linesFrom, if_neg (Ne.symm hline.1), ih hline.2, List.reverse_cons,
      List.append_assoc, List.singleton_append]

theorem HasLines.linesFrom_eq {text : List Char} {lines : List String}
    (hlines : HasLines text lines) : linesFrom [] text = lines := by
  induction hlines with
  | nothing => rfl
  | unended hne hline =>
    have hall := linesFrom_append hline [] []
    rw [List.append_nil, List.append_nil] at hall
    rw [hall, linesFrom, if_neg (by simpa using hne), List.reverse_reverse]
  | feed hline hreturn _ ih =>
    rw [← List.head?_reverse] at hreturn
    rw [linesFrom_append hline, List.append_nil, linesFrom, if_pos rfl,
      dropReturn_of_head?_ne hreturn, ih, List.reverse_reverse]
  | returnFeed hline _ ih =>
    rw [linesFrom_append hline, List.append_nil, linesFrom, if_neg (by decide), linesFrom,
      if_pos rfl, Text.dropReturn, ih, List.reverse_reverse]

/-- Every text has its lines, and no other ones. -/
theorem hasLines_iff (text : String) (found : List String) :
    HasLines text.toList found ↔ found = lines text := by
  refine ⟨fun hfound ↦ hfound.linesFrom_eq.symm, ?_⟩
  rintro rfl
  exact hasLines_linesFrom List.not_mem_nil text.toList

/-- A line feed ends a line, whatever stands before it, so nothing is carried over. -/
theorem linesFrom_append_feed (begun s t : List Char) :
    linesFrom begun (s ++ '\n' :: t) = linesFrom begun (s ++ ['\n']) ++ linesFrom [] t := by
  induction s generalizing begun with
  | nil => rfl
  | cons c s ih =>
    rw [List.cons_append, List.cons_append, linesFrom, linesFrom, ih, ih]
    split <;> rfl

/-- A line has no other characters than its text. -/
theorem HasLines.mem_of_mem {text : List Char} {lines : List String} (h : HasLines text lines)
    {line : String} (hline : line ∈ lines) {c : Char} (hc : c ∈ line.toList) : c ∈ text := by
  induction h with
  | nothing => cases hline
  | unended =>
    rw [List.mem_singleton.mp hline, String.toList_ofList] at hc
    exact hc
  | feed _ _ _ ih =>
    rcases List.mem_cons.mp hline with rfl | hlater
    · rw [String.toList_ofList] at hc
      exact List.mem_append_left _ hc
    · exact List.mem_append_right _ (List.mem_cons_of_mem _ (ih hlater))
  | returnFeed _ _ ih =>
    rcases List.mem_cons.mp hline with rfl | hlater
    · rw [String.toList_ofList] at hc
      exact List.mem_append_left _ hc
    · exact List.mem_append_right _ (List.mem_cons_of_mem _ (List.mem_cons_of_mem _ (ih hlater)))

private theorem lines_append_feed (s t : String) :
    lines (s ++ "\n" ++ t) = lines (s ++ "\n") ++ lines t := by
  have hfeed : "\n".toList = ['\n'] := rfl
  have hall : (s ++ "\n" ++ t).toList = s.toList ++ '\n' :: t.toList := by simp [hfeed]
  have hfirst : (s ++ "\n").toList = s.toList ++ ['\n'] := by simp [hfeed]
  rw [lines, hall, lines, hfirst, lines, linesFrom_append_feed]

end Text

/-! ## Editors -/

/-- What is relied on of an editor whose input is no terminal. Its answer for a line is `handOver`,
and `remains` tells which lines are still to come. -/
structure LineEditor.ReadsLines (editor : LineEditor)
    (remains : editor.State → List String → Prop) (handOver : String → LineAnswer) : Prop where
  setUp (input : String) : ∃ s, editor.setUp input = .ok s ∧ remains s (Text.lines input)
  loadHistory {s : editor.State} {lines : List String} (file : String) :
    remains s lines → remains (editor.loadHistory file s).2 lines
  readLine_nil {s : editor.State} (prompt : String) :
    remains s [] → ∃ next, editor.readLine prompt s = ("", .ended, next)
  readLine_cons {s : editor.State} {line : String} {lines : List String} (prompt : String) :
    remains s (line :: lines) →
      ∃ next, editor.readLine prompt s = ("", handOver line, next) ∧ remains next lines
  addHistory {s : editor.State} {lines : List String} (line : String) :
    remains s lines → remains (editor.addHistory line s) lines
  /-- A line without backspaces is handed over as it stands. -/
  plain {line : String} : backspace ∉ line.toList → handOver line = .line line

/-- Whether an editor can keep its history in a file, if there is one for it. -/
def LineEditor.Saves (editor : LineEditor) (file? : Option String) : Prop :=
  ∀ file ∈ file?, ∀ s, editor.saveHistory file s = .ok ()

theorem LineEditor.readsLines_ofLines {take : String → LineAnswer}
    (hplain : ∀ {line : String}, backspace ∉ line.toList → take line = .line line) :
    (ofLines take).ReadsLines (fun s lines ↦ s = lines) take where
  setUp _ := ⟨_, rfl, rfl⟩
  loadHistory _ := id
  readLine_nil _ := by
    rintro rfl
    exact ⟨_, rfl⟩
  readLine_cons _ := by
    rintro rfl
    exact ⟨_, rfl, rfl⟩
  addHistory _ := id
  plain := hplain

theorem LineEditor.saves_ofLines (take : String → LineAnswer) (file? : Option String) :
    (ofLines take).Saves file? :=
  fun _ _ _ ↦ rfl

namespace Session

/-! ## Reading lines -/

/-- The session that goes through lines, without an editor. Behind the last line it ends as the
history was kept. -/
def reading (handOver : String → LineAnswer) (kept : Ending) : List String → Session
  | [] => ended kept
  | line :: lines =>
    match handOver line with
    | .line text =>
      if Text.isBlank text then reading handOver kept lines
      else (reading handOver kept lines).evaluating text
    | .ended | .interrupted => ended kept
    | .failed cause => ended (.failure ("Readline err: " ++ cause))
    | .crashed => ended .crash

variable {editor : LineEditor} {remains : editor.State → List String → Prop}
  {handOver : String → LineAnswer} {lines texts rest : List String}

/-- One line after the other, a conversation goes through the lines that remain. -/
theorem converse_eq_reading (h : editor.ReadsLines remains handOver) (file? : Option String)
    {s : editor.State} (hs : remains s lines) :
    ∃ last, converse editor file? s = reading handOver (keep editor file? last) lines := by
  induction lines generalizing s with
  | nil =>
    obtain ⟨next, hread⟩ := h.readLine_nil prompt hs
    rw [converse_eq, hread]
    exact ⟨next, printing_empty _⟩
  | cons line lines ih =>
    obtain ⟨next, hread, hnext⟩ := h.readLine_cons prompt hs
    rw [converse_eq, hread]
    simp only [reading]
    cases handOver line with
    | line text =>
      -- What is kept depends on whether the line is added to the history.
      by_cases hblank : Text.isBlank text
      · obtain ⟨last, hlater⟩ := ih hnext
        refine ⟨last, ?_⟩
        dsimp only
        rw [if_pos hblank, if_pos hblank, printing_empty, hlater]
      · obtain ⟨last, hlater⟩ := ih (h.addHistory text hnext)
        refine ⟨last, ?_⟩
        dsimp only
        rw [if_neg hblank, if_neg hblank, printing_empty, hlater]
    | _ => exact ⟨next, printing_empty _⟩

private theorem remains_resume (h : editor.ReadsLines remains handOver) (file? : Option String)
    {s : editor.State} (hs : remains s lines) : remains (resume editor file? s).2 lines := by
  cases file? with
  | none => exact hs
  | some file =>
    have hlater := h.loadHistory file hs
    rw [resume]
    split
    · next hload => rwa [hload] at hlater
    · next hload => rwa [hload] at hlater

/-- Without arguments a session goes through the lines of its input. -/
theorem run_eq_reading (h : editor.ReadsLines remains handOver) (input : String)
    (home? : Option String) :
    ∃ events last, run editor [] input home?
      = (reading handOver (keep editor (home?.map historyFile) last)
        (Text.lines input)).logging events := by
  obtain ⟨s, hsetUp, hs⟩ := h.setUp input
  have hlater := remains_resume h (home?.map historyFile) hs
  obtain ⟨last, hread⟩ := converse_eq_reading h (home?.map historyFile) hlater
  rw [run, hsetUp]
  exact ⟨_, last, congrArg (logging _) hread⟩

private theorem keep_of_saves {file? : Option String} (hsaves : editor.Saves file?)
    (s : editor.State) : keep editor file? s = .success := by
  cases file? with
  | none => rfl
  | some file => rw [keep, hsaves file rfl]

/-! ## What is shown -/

/-- What a session shows for a line that was handed over. -/
def lineOutput (text : String) : String := if Text.isBlank text then "" else eval text ++ "\n"

/-- Lines that are handed over are shown one by one, and do not change how the session goes on. -/
theorem reading_append (h : List.Forall₂ (handOver · = .line ·) lines texts) (kept : Ending)
    (rest : List String) :
    (reading handOver kept (lines ++ rest)).output
        = String.join (texts.map lineOutput) ++ (reading handOver kept rest).output ∧
      (reading handOver kept (lines ++ rest)).ending = (reading handOver kept rest).ending := by
  induction h with
  | nil => exact ⟨String.empty_append.symm, rfl⟩
  | @cons line text lines texts hline _ ih =>
    obtain ⟨houtput, hending⟩ := ih
    rw [List.cons_append, reading, hline, List.map_cons, String.join_cons, lineOutput]
    dsimp only
    cases Text.isBlank text with
    | true =>
      rw [if_pos rfl, if_pos rfl, String.empty_append]
      exact ⟨houtput, hending⟩
    | false =>
      rw [if_neg Bool.false_ne_true, if_neg Bool.false_ne_true, String.append_assoc, ← houtput]
      exact ⟨rfl, hending⟩

/-- What is shown does not depend on how the history was kept. -/
theorem output_reading (kept kept' : Ending) (lines : List String) :
    (reading handOver kept lines).output = (reading handOver kept' lines).output := by
  induction lines with
  | nil => rfl
  | cons line lines ih =>
    rw [reading, reading]
    cases handOver line with
    | line text =>
      dsimp only
      split
      · exact ih
      · exact congrArg (eval text ++ "\n" ++ ·) ih
    | _ => rfl

theorem output_run_singleton (editor : LineEditor) (argument input : String)
    (home? : Option String) :
    (run editor [argument] input home?).output = eval argument ++ "\n" := by
  have hjoined : joined [argument] = argument := by simp [joined]
  rw [output_run_cons, hjoined]

/-- What sessions with one argument each show for texts, where blank texts are left out. -/
def oneByOne (editor : LineEditor) (input : String) (home? : Option String)
    (texts : List String) : String :=
  String.join <| texts.map fun text ↦
    if Text.isBlank text then "" else (run editor [text] input home?).output

theorem oneByOne_eq (editor : LineEditor) (input : String) (home? : Option String)
    (texts : List String) :
    oneByOne editor input home? texts = String.join (texts.map lineOutput) := by
  refine congrArg String.join (List.map_congr_left fun text _ ↦ ?_)
  rw [output_run_singleton, lineOutput]

/-- How a session ends at a line that is not handed over, if its history was kept. -/
def endingAt : LineAnswer → Ending
  | .failed cause => .failure ("Readline err: " ++ cause)
  | .crashed => .crash
  | .line _ | .ended | .interrupted => .success

private theorem reading_of_ne_line {line : String} (h : ∀ text, handOver line ≠ .line text)
    (kept : Ending) (rest : List String) :
    (reading handOver kept (line :: rest)).output = "" ∧
      (reading handOver .success (line :: rest)).ending = endingAt (handOver line) := by
  rw [reading, reading]
  cases hline : handOver line with
  | line text => exact absurd hline (h text)
  | _ => exact ⟨rfl, rfl⟩

private theorem plain_of_not_mem (h : editor.ReadsLines remains handOver) {input : String}
    (hinput : backspace ∉ input.toList) (hlines : Text.HasLines input.toList lines) :
    List.Forall₂ (handOver · = .line ·) lines lines :=
  List.forall₂_same.mpr fun _ hline ↦ h.plain fun hc ↦ hinput (hlines.mem_of_mem hline hc)

/-- A session without arguments goes through the lines of its input, one by one. -/
structure GoesByLine (editor : LineEditor) (handOver : String → LineAnswer) (input : String)
    (home? : Option String) (lines : List String) : Prop where
  /-- These are the lines of the input, and there are no others. -/
  hasLines_iff : ∀ found, Text.HasLines input.toList found ↔ found = lines
  /-- Without backspaces in the input all its lines are handed over as they stand. -/
  plain : backspace ∉ input.toList → List.Forall₂ (handOver · = .line ·) lines lines
  /-- If all lines are handed over, each that is not blank then is shown as an argument is. -/
  output {texts : List String} (other : String) (other? : Option String) :
    List.Forall₂ (handOver · = .line ·) lines texts →
      (run editor [] input home?).output = oneByOne editor other other? texts
  /-- Nothing that is shown makes the session fail, and neither does a history that can be kept. -/
  code {texts : List String} : List.Forall₂ (handOver · = .line ·) lines texts →
    editor.Saves (home?.map historyFile) → (run editor [] input home?).ending.code = 0
  /-- At a line that is not handed over the session ends, with what was shown up to there. -/
  stops {before after texts : List String} {line : String} (other : String)
      (other? : Option String) : lines = before ++ line :: after →
    List.Forall₂ (handOver · = .line ·) before texts → (∀ text, handOver line ≠ .line text) →
      (run editor [] input home?).output = oneByOne editor other other? texts ∧
        (editor.Saves (home?.map historyFile) →
          (run editor [] input home?).ending = endingAt (handOver line))

private theorem goesByLine (h : editor.ReadsLines remains handOver) (input : String)
    (home? : Option String) : GoesByLine editor handOver input home? (Text.lines input) := by
  obtain ⟨events, last, hrun⟩ := run_eq_reading h input home?
  have hkept (hsaves : editor.Saves (home?.map historyFile)) := keep_of_saves hsaves last
  generalize keep editor (home?.map historyFile) last = kept at hrun hkept
  refine ⟨Text.hasLines_iff input,
    fun hinput ↦ plain_of_not_mem h hinput ((Text.hasLines_iff input _).mpr rfl), ?_, ?_, ?_⟩
  · intro texts other other? htexts
    have hreading := (reading_append htexts kept []).1
    rw [List.append_nil] at hreading
    rw [hrun, oneByOne_eq]
    exact hreading.trans String.append_empty
  · intro texts htexts hsaves
    have hreading := (reading_append htexts kept []).2
    rw [List.append_nil] at hreading
    rw [hrun]
    exact congrArg Ending.code (hreading.trans (hkept hsaves))
  · intro before after texts line other other? hlines htexts hline
    obtain ⟨houtput, hending⟩ := reading_append htexts kept (line :: after)
    obtain ⟨hnothing, hends⟩ := reading_of_ne_line hline kept after
    rw [← hlines, hnothing, String.append_empty] at houtput
    rw [← hlines] at hending
    rw [hrun, oneByOne_eq]
    refine ⟨houtput, fun hsaves ↦ hending.trans ?_⟩
    rw [hkept hsaves, hends]

/-- Where a line feed has ended lines that are all handed over, nothing is carried over. -/
theorem output_run_append_feed (h : editor.ReadsLines remains handOver) {s : String}
    (htexts : List.Forall₂ (handOver · = .line ·) (Text.lines (s ++ "\n")) texts) (t : String)
    (home? : Option String) :
    (run editor [] (s ++ "\n" ++ t) home?).output
      = (run editor [] (s ++ "\n") home?).output ++ (run editor [] t home?).output := by
  obtain ⟨events, last, hall⟩ := run_eq_reading h (s ++ "\n" ++ t) home?
  obtain ⟨events', last', hlater⟩ := run_eq_reading h t home?
  have hfirst := (goesByLine h (s ++ "\n") home?).output "" none htexts
  rw [oneByOne_eq] at hfirst
  rw [hall, hlater, hfirst, Text.lines_append_feed]
  refine (reading_append htexts _ (Text.lines t)).1.trans (congrArg _ ?_)
  exact output_reading _ _ (Text.lines t)

end Session

open Session

variable {editor : LineEditor} {remains : editor.State → List String → Prop}
  {handOver : String → LineAnswer}

/-- **Every line is a session of its own.** Without arguments a session shows for each line that is
handed over what it shows with that line as its argument, and nothing for a blank one; and a line
feed splits an input into two that are shown one after the other. -/
theorem output_line_by_line (h : editor.ReadsLines remains handOver) (input : String)
    (home? : Option String) :
    ∃ lines, GoesByLine editor handOver input home? lines ∧
      ∀ s t found texts, input = s ++ "\n" ++ t → Text.HasLines (s ++ "\n").toList found →
        List.Forall₂ (handOver · = .line ·) found texts →
          (run editor [] input home?).output
            = (run editor [] (s ++ "\n") home?).output ++ (run editor [] t home?).output := by
  refine ⟨Text.lines input, goesByLine h input home?, ?_⟩
  rintro s t found texts rfl hfound htexts
  rw [Text.hasLines_iff] at hfound
  subst hfound
  exact output_run_append_feed h htexts t home?

/-- The editor of the command line is one that can be relied on. -/
theorem Console.readsLines_editor :
    Console.editor.ReadsLines (fun s lines ↦ s = lines) Console.edited :=
  LineEditor.readsLines_ofLines fun h ↦ if_neg h

/-- A blank line, a line that a backspace has changed, and a last one without end. -/
theorem output_of_typed_lines :
    Console.editor.ReadsLines (fun s lines ↦ s = lines) Console.edited ∧
      (run Console.editor [] "1+2\n \t\n12\x083\r\n4/0" (some "/home")).output
        = "3\n13\nERROR: 4 / 0 is not a finite number\n" ∧
      (run Console.editor [] "1+2\n \t\n12\x083\r\n4/0" (some "/home")).ending.code = 0 := by
  obtain ⟨lines, hlines, -⟩ := output_line_by_line Console.readsLines_editor
    "1+2\n \t\n12\x083\r\n4/0" (some "/home")
  obtain rfl : ["1+2", " \t", "12\x083", "4/0"] = lines :=
    (hlines.hasLines_iff _).mp ((Text.hasLines_iff _ _).mpr (by decide +kernel))
  have htexts : List.Forall₂ (Console.edited · = .line ·) ["1+2", " \t", "12\x083", "4/0"]
      ["1+2", " \t", "13", "4/0"] := by
    decide +kernel
  refine ⟨Console.readsLines_editor, (hlines.output "" none htexts).trans ?_,
    hlines.code htexts (LineEditor.saves_ofLines Console.edited _)⟩
  decide +kernel

/-- A line with a backspace is not shown as the argument with the same characters is. -/
theorem output_of_line_with_backspace :
    Console.editor.ReadsLines (fun s lines ↦ s = lines) Console.edited ∧
      Text.HasLines "12\x083\n".toList ["12\x083"] ∧ ¬ Text.isBlank "12\x083" ∧
      (run Console.editor [] "12\x083\n" none).output = "13\n" ∧
      (run Console.editor ["12\x083"] "" none).output ≠ "13\n" := by
  refine ⟨Console.readsLines_editor, ?_, by decide, by decide +kernel, by decide +kernel⟩
  exact (Text.hasLines_iff _ _).mpr (by decide +kernel)

end Calculator
