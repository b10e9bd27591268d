import Calculator.Proofs.Climbing.Nesting
import Calculator.Proofs.Evaluation.Refinement
import Calculator.Proofs.Lexer.LetterCase
import Calculator.Proofs.Lexer.Written

/-!
# Letter case does not matter

Two expressions that differ in letter case only have the same value, to the last bit, or an error of
the same kind with the same data. Only a number literal that is too large is shown as it was typed.
-/

namespace Calculator

open Climbing (Item readItems)
open Token (foldMarker)

/-! ## Tokens -/

/-- The same result, or errors about number literals that differ in the exponent's marker only. -/
inductive SameButMarker {α : Type} : Except EvalError α → Except EvalError α → Prop
  | same (r : Except EvalError α) : SameButMarker r r
  | literal {literal literal' : String} : foldMarker literal = foldMarker literal' →
      SameButMarker (.error (.domain (.literal literal))) (.error (.domain (.literal literal')))

theorem SameButMarker.bind {α β : Type} {r r' : Except EvalError α} (h : SameButMarker r r')
    {k k' : α → Except EvalError β} (hk : ∀ a, SameButMarker (k a) (k' a)) :
    SameButMarker (r >>= k) (r' >>= k') := by
  cases h with
  | same r =>
    cases r with
    | error cause => exact .same _
    | ok a => exact hk a
  | literal h => exact .literal h

variable {token token' : Token} {tokens tokens' : List Token} {literal literal' : String}

theorem foldCase_eq_opening_iff (token : Token) : token.foldCase = .opening ↔ token = .opening := by
  cases token <;> simp [Token.foldCase]

theorem foldCase_eq_closing_iff (token : Token) : token.foldCase = .closing ↔ token = .closing := by
  cases token <;> simp [Token.foldCase]

private theorem balanced_eq_of_foldCase
    (h : tokens.map Token.foldCase = tokens'.map Token.foldCase) :
    Climbing.balanced 0 tokens = Climbing.balanced 0 tokens' := by
  have hfold := Climbing.balanced_map foldCase_eq_opening_iff foldCase_eq_closing_iff 0
  rw [← hfold tokens, h, hfold tokens']

private theorem sameButMarker_literal (h : (Token.number literal).IsLexical)
    (h' : (Token.number literal').IsLexical) (hfold : foldMarker literal = foldMarker literal') :
    SameButMarker (Meaning.literal literal) (Meaning.literal literal') := by
  obtain ⟨x, hread⟩ : ∃ x, Number.read? literal = some x := by
    have hsome := Token.isSome_read? h
    rw [String.ofList_toList] at hsome
    exact Option.isSome_iff_exists.mp hsome
  have hread' : Number.read? literal' = some x := by
    rw [← Token.read?_foldMarker h', ← hfold, Token.read?_foldMarker h, hread]
  rw [Meaning.literal, Meaning.literal, hread, hread']
  dsimp only [Meaning.finite]
  split
  · exact .same _
  · exact .literal hfold

private theorem sameButMarker_ofToken (h : token.IsLexical) (h' : token'.IsLexical)
    (hfold : token.foldCase = token'.foldCase) :
    SameButMarker (Item.ofToken token) (Item.ofToken token') := by
  by_cases hnumber : ∃ literal, token = .number literal
  · obtain ⟨literal, rfl⟩ := hnumber
    cases token' with
    | number literal' =>
      have hvalue := sameButMarker_literal h h' (Token.number.inj hfold)
      exact hvalue.bind fun x ↦ .same (.ok (Item.number x))
    | _ => cases hfold
  · have hsame : token' = token := by
      cases token with
      | number literal => exact absurd ⟨literal, rfl⟩ hnumber
      | _ =>
        cases token' <;> cases hfold
        rfl
    rw [hsame]
    exact .same _

private theorem sameButMarker_mapM (h : ∀ token ∈ tokens, token.IsLexical)
    (h' : ∀ token ∈ tokens', token.IsLexical)
    (hfold : tokens.map Token.foldCase = tokens'.map Token.foldCase) :
    SameButMarker (tokens.mapM Item.ofToken) (tokens'.mapM Item.ofToken) := by
  induction tokens generalizing tokens' with
  | nil =>
    rw [List.map_eq_nil_iff.mp hfold.symm]
    exact .same _
  | cons token tokens ih =>
    obtain ⟨token', tokens', rfl, htoken, htokens⟩ := List.map_eq_cons_iff.mp hfold.symm
    obtain ⟨hlexical, hrest⟩ := List.forall_mem_cons.mp h
    obtain ⟨hlexical', hrest'⟩ := List.forall_mem_cons.mp h'
    rw [List.mapM_cons, List.mapM_cons]
    exact (sameButMarker_ofToken hlexical hlexical' htoken.symm).bind fun item ↦
      (ih hrest hrest' htokens.symm).bind fun items ↦ .same _

/-- Tokens that differ in the markers of exponents only are evaluated alike. -/
theorem sameButMarker_evaluate (h : ∀ token ∈ tokens, token.IsLexical)
    (h' : ∀ token ∈ tokens', token.IsLexical)
    (hfold : tokens.map Token.foldCase = tokens'.map Token.foldCase) :
    SameButMarker (evaluate tokens) (evaluate tokens') := by
  have hitems : SameButMarker (readItems tokens) (readItems tokens') := by
    rw [readItems, readItems, balanced_eq_of_foldCase hfold]
    split
    · exact sameButMarker_mapM h h' hfold
    · exact .same _
  rw [evaluate_eq_readValue, evaluate_eq_readValue, readValue, readValue]
  exact hitems.bind fun items ↦ .same _

/-! ## Texts -/

/-- What two texts evaluate to that differ in letter case only: the same double; lexical errors at
the same place; or the same error of the evaluation, where a number literal that is too large may
have another marker. -/
inductive SameMeaning : Except Error Float → Except Error Float → Prop
  | value (x : Float) : SameMeaning (.ok x) (.ok x)
  | lexical {e e' : LexError} : e.position = e'.position → e.found.toLower = e'.found.toLower →
      SameMeaning (.error (.lex e)) (.error (.lex e'))
  | evaluation (cause : EvalError) : SameMeaning (.error (.eval cause)) (.error (.eval cause))
  | literal {literal literal' : String} : foldMarker literal = foldMarker literal' →
      SameMeaning (.error (.eval (.domain (.literal literal))))
        (.error (.eval (.domain (.literal literal'))))

theorem SameButMarker.sameMeaning {r r' : Except EvalError Float} (h : SameButMarker r r') :
    SameMeaning (r.mapError Error.eval) (r'.mapError Error.eval) := by
  cases h with
  | same r =>
    cases r with
    | error cause => exact .evaluation cause
    | ok x => exact .value x
  | literal h => exact .literal h

/-- **Letter case does not matter.** -/
theorem evaluateText_lower (s t : String)
    (h : s.toList.map Char.toLower = t.toList.map Char.toLower) :
    SameMeaning (evaluateText s) (evaluateText t) := by
  have hlower : foldTokens (Token.munch 0 s.toList) = foldTokens (Token.munch 0 t.toList) := by
    rw [← munch_lower, h, munch_lower]
  rw [evaluateText, evaluateText, tokenize_eq, tokenize_eq]
  cases hs : Token.munch 0 s.toList with
  | error e =>
    cases ht : Token.munch 0 t.toList with
    | error e' =>
      rw [hs, ht] at hlower
      obtain ⟨hposition, hfound⟩ := LexError.mk.inj (Except.error.inj hlower)
      exact .lexical hposition hfound
    | ok tokens' =>
      rw [hs, ht] at hlower
      cases hlower
  | ok tokens =>
    cases ht : Token.munch 0 t.toList with
    | error e' =>
      rw [hs, ht] at hlower
      cases hlower
    | ok tokens' =>
      rw [hs, ht] at hlower
      exact (sameButMarker_evaluate (Token.isLexical_of_munch hs) (Token.isLexical_of_munch ht)
        (Except.ok.inj hlower)).sameMeaning

/-- Only a number that is too large shows in which case it was typed. -/
theorem evaluateText_of_capitals :
    "SQRT(4E0) & 2E400".toList.map Char.toLower = "sqRt(4e0) & 2e400".toList.map Char.toLower ∧
      SameMeaning (evaluateText "SQRT(4E0) & 2E400") (evaluateText "sqRt(4e0) & 2e400") ∧
      evaluateText "SQRT(4E0) & 2E400" ≠ evaluateText "sqRt(4e0) & 2e400" := by
  have hlower : "SQRT(4E0) & 2E400".toList.map Char.toLower
      = "sqRt(4e0) & 2e400".toList.map Char.toLower := by decide +kernel
  exact ⟨hlower, evaluateText_lower _ _ hlower, by decide +kernel⟩

end Calculator
