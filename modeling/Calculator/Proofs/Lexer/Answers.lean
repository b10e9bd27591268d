import Calculator.Proofs.Lexer.Munch

/-!
# A lexer that is asked again and again

The answers of a lexer that is asked for one item after the other, also behind the end of the text
and behind an error. They are the items of the text, and then nothing for ever.

## Errors point into the text

The position of an error is the number of characters in front of the one that was found. The tokens
answered before an error are those of these characters alone, because a token in front of an error
depends on nothing behind it.
-/

namespace Calculator

namespace Lexer

variable {l : Lexer} {s : Scanner Char} {origin : Nat}

/-! ## Answers -/

/-- What a lexer answers after some earlier requests. -/
def answer (l : Lexer) : (earlier : Nat) → Option LexItem
  | 0 => l.next.1
  | earlier + 1 => l.next.2.answer earlier

/-- A lexer between two requests: it has failed, or it has forgotten all that it has accepted. -/
def IsReady (l : Lexer) : Prop :=
  l.failed ∨ ∃ origin ahead, l.scanner.Sees origin [] ahead

private theorem items_of_failed (h : l.failed) : l.items = [] := items_of_none (if_pos h)

private theorem items_of_sees_nil (h : s.Sees origin [] []) : (⟨s, false⟩ : Lexer).items = [] := by
  obtain ⟨tokens, failure, hyields, hitems⟩ := items_eq h
  obtain ⟨rfl, rfl⟩ := hyields.eq_nil
  exact hitems

/-- One request: an item, or nothing where there are no items any more. -/
theorem IsReady.next_cases (h : l.IsReady) :
    (∃ item l', l.next = (some item, l') ∧ l'.IsReady) ∨
      ∃ l', l.next = (none, l') ∧ l'.IsReady ∧ l'.items = [] := by
  by_cases hfailed : l.failed
  · exact .inr ⟨l, if_pos hfailed, h, items_of_failed hfailed⟩
  obtain ⟨origin, ahead, hs⟩ := h.resolve_left hfailed
  obtain ⟨blanks, left, -, -, -, hfinds⟩ := finds_scanItem hs
  generalize hscan : scanItem l.scanner = found at hfinds
  cases hfinds with
  | @token token spelling left t _ ht =>
    refine .inl ⟨.ok token, ⟨t, false⟩, ?_, .inr ⟨_, _, ht⟩⟩
    rw [next, if_neg hfailed, hscan]
  | @error c left t _ =>
    refine .inl ⟨.error ⟨origin + blanks.length, c⟩, ⟨t, true⟩, ?_, .inl rfl⟩
    rw [next, if_neg hfailed, hscan]
  | @nothing t ht =>
    refine .inr ⟨⟨t, false⟩, ?_, .inr ⟨_, _, ht⟩, items_of_sees_nil ht⟩
    rw [next, if_neg hfailed, hscan]

/-- **The answers are the items**, and nothing behind the last one. -/
theorem answer_eq (h : l.IsReady) (earlier : Nat) : l.answer earlier = l.items[earlier]? := by
  induction earlier generalizing l with
  | zero =>
    rcases h.next_cases with ⟨item, l', hnext, -⟩ | ⟨l', hnext, -⟩
    · rw [answer, items_of_some hnext, hnext]
      rfl
    · rw [answer, items_of_none hnext, hnext]
      rfl
  | succ earlier ih =>
    rcases h.next_cases with ⟨item, l', hnext, hl'⟩ | ⟨l', hnext, hl', hnone⟩
    · rw [answer, items_of_some hnext, hnext, ih hl', List.getElem?_cons_succ]
    · rw [answer, items_of_none hnext, hnext, ih hl', hnone]
      rfl

theorem isReady_ofString (text : String) : (ofString text).IsReady :=
  .inr ⟨_, _, Scanner.Sees.start rfl⟩

end Lexer

/-! ## Where errors are -/

/-- A lexical error is about a character of the text, and the characters before it have tokens. -/
structure LexError.IsAt (e : LexError) (text : String) (tokens : List Token) : Prop where
  found : text.toList[e.position]? = some e.found
  not_isBlank : ¬ Token.isBlank e.found
  not_isDigit : ¬ e.found.isDigit
  not_isSymbol : ¬ Token.IsSymbol e.found
  before : tokenize (String.ofList (text.toList.take e.position)) = .ok tokens

namespace Token

variable {c : Char}

private theorem not_isDigit_of_none (h : ofSpelling? [c] = none) : ¬ c.isDigit := fun hc ↦ by
  have hnumber : isNumberText [c] := by simp [isNumberText, areDigits, isExponent, hc]
  rw [ofSpelling?_of_isNumberText hnumber] at h
  cases h

private theorem not_isSymbol_of_none (h : ofSpelling? [c] = none) : ¬ IsSymbol c := by
  intro hsymbol
  have hspells : ∃ token, IsFirst token [c] [] := by
    rcases hsymbol with rfl | rfl | hoperator
    · exact ⟨_, isFirst_opening⟩
    · exact ⟨_, isFirst_closing⟩
    · obtain ⟨o, rfl⟩ := isSome_ofChar?_iff.mp hoperator
      exact ⟨_, isFirst_operator o⟩
  obtain ⟨token, hfirst⟩ := hspells
  rw [hfirst.spells] at h
  cases h

theorem Yields.isAt {text : String} {tokens : List Token} {e : LexError}
    (h : Yields 0 text.toList tokens (some e)) : e.IsAt text tokens := by
  obtain ⟨before, after, htext, hposition, hbefore, hblank, hnone⟩ := h.split
  rw [Nat.zero_add] at hposition
  have htake : text.toList.take e.position = before := by
    rw [htext, hposition, List.take_left]
  refine ⟨?_, hblank, not_isDigit_of_none hnone, not_isSymbol_of_none hnone, ?_⟩
  · rw [htext, hposition, List.getElem?_append_right (Nat.le_refl _), Nat.sub_self]
    rfl
  · rw [htake, tokenize_eq, String.toList_ofList, hbefore.munch_eq]
    rfl

end Token

/-- **Lexical errors point at the right place and end the stream.** A lexer answers the tokens of a
text, no more than the text has characters that are no blanks, then the error if there is one, and
then nothing for ever. -/
theorem answers_of_text (text : String) :
    ∃ tokens failure,
      (∀ earlier,
        (Lexer.ofString text).answer earlier = (Lexer.itemsOf tokens failure)[earlier]?) ∧
      tokens.length ≤ text.toList.countP (fun c ↦ !Token.isBlank c) ∧
      tokenize text = Token.outcome tokens failure ∧
      ∀ e ∈ failure, e.IsAt text tokens := by
  have hstart : (Scanner.ofList text.toList).Sees 0 [] text.toList := Scanner.Sees.start rfl
  obtain ⟨tokens, failure, hyields, hitems⟩ := Lexer.items_eq hstart
  refine ⟨tokens, failure, fun earlier ↦ ?_, hyields.length_le, ?_, ?_⟩
  · rw [Lexer.answer_eq (Lexer.isReady_ofString text)]
    exact congrArg (·[earlier]?) hitems
  · exact (tokenize_eq text).trans hyields.munch_eq
  · rintro e rfl
    exact hyields.isAt

end Calculator
