import Calculator.Proofs.Lexer.Munch
import Calculator.Session

/-!
# Texts in pieces

A text in two pieces with blanks between them has the tokens of the first piece and then those of
the second, and where one of them has an error, so does the text. The arguments of a session are
pieces with one blank between them, so what is evaluated is their tokens one after the other.

## Where the error of a piece is

An error of the first piece stays where it is. One of the second piece has the first piece and the
blanks before it, and none if the first piece has an error too, because an error ends the tokens.
-/

namespace Calculator

open Token (Yields outcome)

variable {text later blanks : String} {tokens laterTokens : List Token} {e : LexError}

/-! ## Two pieces -/

theorem yields_of_tokenize (h : tokenize text = .ok tokens) : Yields 0 text.toList tokens none :=
  Token.yields_of_munch ((tokenize_eq text).symm.trans h)

private theorem exists_yields_of_tokenize (h : tokenize text = .error e) :
    ∃ tokens, Yields 0 text.toList tokens (some e) :=
  Token.exists_yields_of_munch ((tokenize_eq text).symm.trans h)

private theorem tokenize_of_yields {failure : Option LexError}
    (h : Yields 0 text.toList tokens failure) :
    tokenize text = outcome tokens failure :=
  (tokenize_eq text).trans h.munch_eq

/-- A text that consists of blanks, and of one at least. -/
structure AreBlanks (blanks : String) : Prop where
  ne_empty : blanks ≠ ""
  isBlank : ∀ c ∈ blanks.toList, Token.isBlank c

theorem AreBlanks.exists_cons (h : AreBlanks blanks) :
    ∃ c more, blanks.toList = c :: more ∧ Token.isBlank c := by
  cases hblanks : blanks.toList with
  | nil => exact absurd (String.toList_eq_nil_iff.mp hblanks) h.ne_empty
  | cons c more => exact ⟨c, more, rfl, h.isBlank c (by simp [hblanks])⟩

private theorem areBlanks_space : AreBlanks " " := ⟨by simp, by simp [Token.isBlank]⟩

/-- A piece that does not fail, and what is yielded behind it. -/
theorem AreBlanks.yields (h : AreBlanks blanks) (htext : Yields 0 text.toList tokens none)
    {failure : Option LexError} (hlater : Yields 0 later.toList laterTokens failure) :
    Yields 0 (text ++ blanks ++ later).toList (tokens ++ laterTokens)
      (failure.map (LexError.behind (text.length + blanks.length))) := by
  obtain ⟨c, more, hblanks, hc⟩ := h.exists_cons
  have hplace :
      text.length + blanks.length + 0 = 0 + text.toList.length + blanks.toList.length := by
    rw [String.length_toList, String.length_toList, Nat.zero_add, Nat.add_zero]
  have hshift := hlater.shift (text.length + blanks.length)
  rw [hplace] at hshift
  have hbehind := hshift.blanks h.isBlank
  rw [hblanks] at hbehind
  rw [String.toList_append, String.toList_append, hblanks, List.append_assoc]
  exact htext.append hc hbehind

/-- A piece that fails, whatever stands behind it. -/
theorem AreBlanks.yields_of_error (h : AreBlanks blanks)
    (htext : Yields 0 text.toList tokens (some e)) (later : String) :
    Yields 0 (text ++ blanks ++ later).toList tokens (some e) := by
  obtain ⟨c, more, hblanks, hc⟩ := h.exists_cons
  rw [String.toList_append, String.toList_append, hblanks, List.append_assoc]
  exact htext.append_of_error hc (more ++ later.toList)

theorem AreBlanks.tokenize_ok (h : AreBlanks blanks) (htext : tokenize text = .ok tokens)
    (hlater : tokenize later = .ok laterTokens) :
    tokenize (text ++ blanks ++ later) = .ok (tokens ++ laterTokens) :=
  tokenize_of_yields (h.yields (yields_of_tokenize htext) (yields_of_tokenize hlater))

theorem AreBlanks.tokenize_error_behind (h : AreBlanks blanks) (htext : tokenize text = .ok tokens)
    (hlater : tokenize later = .error e) :
    tokenize (text ++ blanks ++ later)
      = .error ⟨text.length + blanks.length + e.position, e.found⟩ := by
  obtain ⟨laterTokens, hyields⟩ := exists_yields_of_tokenize hlater
  exact tokenize_of_yields (h.yields (yields_of_tokenize htext) hyields)

theorem AreBlanks.tokenize_error (h : AreBlanks blanks) (htext : tokenize text = .error e)
    (later : String) : tokenize (text ++ blanks ++ later) = .error e := by
  obtain ⟨tokens, hyields⟩ := exists_yields_of_tokenize htext
  exact tokenize_of_yields (h.yields_of_error hyields later)

/-! ## Arguments -/

namespace Session

variable {argument : String} {arguments before : List String} {lists : List (List Token)}

theorem joined_cons (argument : String) (hne : arguments ≠ []) :
    joined (argument :: arguments) = argument ++ " " ++ joined arguments :=
  String.intercalate_cons_of_ne_nil hne

theorem joined_singleton (argument : String) : joined [argument] = argument :=
  String.intercalate_singleton

/-- Arguments that have tokens have them one after the other. -/
theorem tokenize_joined (h : List.Forall₂ (tokenize · = .ok ·) arguments lists) :
    tokenize (joined arguments) = .ok lists.flatten := by
  induction h with
  | nil =>
    have hnil : Yields 0 "".toList [] none := .nil
    exact tokenize_of_yields hnil
  | @cons argument tokens arguments lists hargument harguments ih =>
    by_cases hne : arguments = []
    · subst hne
      cases harguments
      rw [joined_singleton, hargument]
      simp
    · rw [joined_cons argument hne, areBlanks_space.tokenize_ok hargument ih]
      rfl

/-- The text in front of an argument: the arguments before it, each with its blank. -/
def textBefore (before : List String) : String := String.join (before.map (· ++ " "))

theorem textBefore_cons (first : String) (before : List String) :
    textBefore (first :: before) = first ++ " " ++ textBefore before := by
  rw [textBefore, List.map_cons, String.join_cons]
  rfl

/-- The first argument that has no tokens has the error, behind all that stands before it. -/
private theorem tokenize_joined_of_error (h : List.Forall₂ (tokenize · = .ok ·) before lists)
    (hargument : tokenize argument = .error e) (after : List String) :
    tokenize (joined (before ++ argument :: after))
      = .error ⟨(textBefore before).length + e.position, e.found⟩ := by
  induction h with
  | nil =>
    have hposition : (textBefore []).length + e.position = e.position := Nat.zero_add _
    rw [hposition, List.nil_append]
    by_cases hne : after = []
    · subst hne
      rw [joined_singleton, hargument]
    · rw [joined_cons argument hne]
      exact areBlanks_space.tokenize_error hargument _
  | @cons first tokens before lists hfirst _ ih =>
    rw [List.cons_append, joined_cons first (by simp),
      areBlanks_space.tokenize_error_behind hfirst ih, textBefore_cons, String.length_append,
      String.length_append]
    simp only [Nat.add_assoc]

/-- The text of an argument stands behind the text before it. -/
theorem joined_append (before : List String) (hne : arguments ≠ []) :
    joined (before ++ arguments) = textBefore before ++ joined arguments := by
  induction before with
  | nil => exact String.empty_append.symm
  | cons first before ih =>
    rw [List.cons_append, joined_cons first (by simp [hne]), ih, textBefore_cons]
    simp only [String.append_assoc]

theorem output_run_of_ne_nil (hne : arguments ≠ []) (editor : LineEditor) (input : String)
    (home? : Option String) :
    (run editor arguments input home?).output = eval (joined arguments) ++ "\n" := by
  obtain ⟨argument, arguments, rfl⟩ := List.exists_cons_of_ne_nil hne
  exact output_run_cons editor argument arguments input home?

end Session

open Session

/-- **Blanks separate.** Two pieces of a text with blanks between them have the tokens of both, or
the error of the first piece that has one, at its place in the text. So a session with arguments
evaluates the tokens of all arguments, or shows the error of the first argument that has one. -/
theorem tokens_in_pieces :
    (∀ text blanks later, AreBlanks blanks →
      (∀ tokens laterTokens, tokenize text = .ok tokens → tokenize later = .ok laterTokens →
        tokenize (text ++ blanks ++ later) = .ok (tokens ++ laterTokens)) ∧
      (∀ tokens e, tokenize text = .ok tokens → tokenize later = .error e →
        tokenize (text ++ blanks ++ later)
          = .error ⟨text.length + blanks.length + e.position, e.found⟩) ∧
      (∀ e, tokenize text = .error e → tokenize (text ++ blanks ++ later) = .error e)) ∧
    (∀ arguments lists editor input home?, arguments ≠ [] →
      List.Forall₂ (tokenize · = .ok ·) arguments lists →
      (run editor arguments input home?).output
        = showResult ((evaluate lists.flatten).mapError .eval) ++ "\n") ∧
    ∀ before argument after lists e editor input home?,
      List.Forall₂ (tokenize · = .ok ·) before lists → tokenize argument = .error e →
      joined (before ++ argument :: after)
          = textBefore before ++ joined (argument :: after) ∧
        (run editor (before ++ argument :: after) input home?).output
          = showResult (.error (.lex ⟨(textBefore before).length + e.position, e.found⟩))
            ++ "\n" := by
  refine ⟨fun text blanks later h ↦ ⟨fun _ _ ↦ h.tokenize_ok, fun _ _ ↦ h.tokenize_error_behind,
    fun _ htext ↦ h.tokenize_error htext later⟩, ?_, ?_⟩
  · intro arguments lists editor input home? hne hlists
    rw [output_run_of_ne_nil hne, eval, evaluateText, tokenize_joined hlists]
    rfl
  · intro before argument after lists e editor input home? hlists hargument
    refine ⟨joined_append before (by simp), ?_⟩
    rw [output_run_of_ne_nil (by simp), eval, evaluateText,
      tokenize_joined_of_error hlists hargument after]
    rfl

/-- Without the blanks this is one number. -/
theorem tokenize_number_blanks_exponent :
    tokenize ("1" ++ " \t" ++ "e5") = .error ⟨"1".length + " \t".length + 0, 'e'⟩ ∧
      (run (.ofLines .line) ["1", "e5"] "" none).output
        = "ERROR: unexpected character 'e' at position 2\n" := by
  have hfirst : tokenize "1" = .ok [.number "1"] := by decide +kernel
  have hlater : tokenize "e5" = .error ⟨0, 'e'⟩ := by decide +kernel
  obtain ⟨hpieces, -, herror⟩ := tokens_in_pieces
  have hblanks : AreBlanks " \t" := ⟨by simp, by simp [Token.isBlank]⟩
  have hrun := herror ["1"] "e5" [] [[.number "1"]] ⟨0, 'e'⟩ (.ofLines .line) "" none
    (.cons hfirst .nil) hlater
  refine ⟨(hpieces "1" " \t" "e5" hblanks).2.1 _ _ hfirst hlater, hrun.2.trans ?_⟩
  decide +kernel

end Calculator
