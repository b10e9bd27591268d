import Calculator.Proofs.Token.Munch

/-!
# What a text yields

The tokens that are read from a text up to its end or up to a character at which none begins, and in
the second case the error. A result of `munch` keeps the error only; here the tokens in front of it
are kept too, so that what a part of a text yields can be compared with what the whole text does.

## Where a text may be cut

A longest token stays the longest if less of the text follows, so up to an error a text yields what
its beginning does. With more text behind it a token could become longer, but no token holds a
blank: the text in front of a blank yields what it yields alone, and so does the text behind it.
-/

namespace Calculator

namespace LexError

/-- The same error with more characters before it. -/
def behind (count : Nat) (e : LexError) : LexError := ⟨count + e.position, e.found⟩

end LexError

namespace Token

/-- A text that stands at a position yields tokens, each the longest possible, and behind them an
error or nothing. -/
inductive Yields : (position : Nat) → (text : List Char) → List Token → Option LexError → Prop where
  | nil {position : Nat} : Yields position [] [] none
  | blank {position : Nat} {c : Char} {text : List Char} {tokens : List Token}
      {failure : Option LexError} :
      Token.isBlank c → Yields (position + 1) text tokens failure →
      Yields position (c :: text) tokens failure
  | token {position : Nat} {token : Token} {spelling rest : List Char} {tokens : List Token}
      {failure : Option LexError} :
      IsFirst token spelling rest → Yields (position + spelling.length) rest tokens failure →
      Yields position (spelling ++ rest) (token :: tokens) failure
  | error {position : Nat} {c : Char} {rest : List Char} :
      ¬ Token.isBlank c → (∀ text, text <+: c :: rest → ofSpelling? text = none) →
      Yields position (c :: rest) [] (some ⟨position, c⟩)

variable {position : Nat} {text rest part spelling : List Char} {c : Char} {token : Token}
  {tokens later : List Token} {failure : Option LexError} {e : LexError}

/-- Tokens as a result, or the error behind them. -/
def outcome (tokens : List Token) : Option LexError → Except LexError (List Token)
  | none => .ok tokens
  | some e => .error e

private theorem ofSpelling?_eq_none_of_longestWithin (h : longestWithin text text.length = none)
    (hpart : part <+: text) : ofSpelling? part = none := by
  cases part with
  | nil => decide
  | cons c part =>
    rw [List.prefix_iff_eq_take.mp hpart]
    exact ofSpelling?_of_longestWithin_none h (Nat.succ_pos _) hpart.length_le

private theorem exists_yields (position : Nat) (text : List Char) :
    ∃ tokens failure, Yields position text tokens failure := by
  fun_induction munch position text with
  | case1 position => exact ⟨[], none, .nil⟩
  | case2 position c rest hblank ih =>
    obtain ⟨tokens, failure, h⟩ := ih
    exact ⟨tokens, failure, .blank hblank h⟩
  | case3 position c rest hblank hwithin =>
    exact ⟨[], _, .error hblank fun _ ↦ ofSpelling?_eq_none_of_longestWithin hwithin⟩
  | case4 position c rest hblank token n hwithin ih =>
    obtain ⟨tokens, failure, h⟩ := ih
    have hfirst : IsFirst token (c :: rest.take n) (rest.drop n) :=
      isFirst_of_longestWithin hwithin
    have hlength : position + (c :: rest.take n).length = position + n + 1 := by
      have hlt := (of_longestWithin_some hwithin).1
      rw [List.length_cons, List.length_take]
      omega
    have hyields : Yields position ((c :: rest.take n) ++ rest.drop n) (token :: tokens) failure :=
      .token hfirst (hlength ▸ h)
    rw [List.cons_append, List.take_append_drop] at hyields
    exact ⟨_, _, hyields⟩

namespace Yields

theorem munch_eq (h : Yields position text tokens failure) :
    munch position text = outcome tokens failure := by
  induction h with
  | nil => exact munch_nil _
  | blank hblank _ ih => rw [munch, if_pos hblank, ih]
  | @token position token spelling rest tokens failure hfirst _ ih =>
    rw [munch_token hfirst, ih]
    cases failure <;> rfl
  | error hblank hnone => exact munch_error hnone hblank _

theorem eq_nil (h : Yields position [] tokens failure) : tokens = [] ∧ failure = none := by
  have hmunch := h.munch_eq
  rw [munch_nil] at hmunch
  cases failure with
  | none =>
    cases hmunch
    exact ⟨rfl, rfl⟩
  | some e => cases hmunch

end Yields

theorem yields_of_munch (h : munch position text = .ok tokens) :
    Yields position text tokens none := by
  obtain ⟨found, failure, hyields⟩ := exists_yields position text
  rw [hyields.munch_eq] at h
  cases failure with
  | none =>
    cases h
    exact hyields
  | some e => cases h

theorem exists_yields_of_munch (h : munch position text = .error e) :
    ∃ tokens, Yields position text tokens (some e) := by
  obtain ⟨tokens, failure, hyields⟩ := exists_yields position text
  rw [hyields.munch_eq] at h
  cases failure with
  | none => cases h
  | some e' =>
    cases h
    exact ⟨tokens, hyields⟩

/-- What holds of the empty text, and remains true with a blank or a first token in front, holds of
every text that has tokens. -/
theorem munch_induction (motive : List Char → List Token → Prop) (nil : motive [] [])
    (blank : ∀ {c text tokens}, Token.isBlank c → motive text tokens → motive (c :: text) tokens)
    (first : ∀ {token spelling rest tokens position}, IsFirst token spelling rest →
      munch position rest = .ok tokens → motive rest tokens →
      motive (spelling ++ rest) (token :: tokens))
    {tokens : List Token} (h : munch position text = .ok tokens) : motive text tokens := by
  have hyields := yields_of_munch h
  clear h
  generalize hfailure : none = failure at hyields
  induction hyields with
  | nil => exact nil
  | blank hblank _ ih => exact blank hblank (ih hfailure)
  | token hfirst hrest ih =>
    subst hfailure
    exact first hfirst hrest.munch_eq (ih rfl)
  | error => cases hfailure

namespace Yields

/-! ## Cutting a text -/

theorem blanks {blanks : List Char} (hblanks : ∀ c ∈ blanks, Token.isBlank c)
    (h : Yields (position + blanks.length) text tokens failure) :
    Yields position (blanks ++ text) tokens failure := by
  induction blanks generalizing position with
  | nil => exact h
  | cons c blanks ih =>
    obtain ⟨hc, hblanks⟩ := List.forall_mem_cons.mp hblanks
    rw [List.length_cons, Nat.add_comm blanks.length, ← Nat.add_assoc] at h
    exact .blank hc (ih hblanks h)

/-- What stands before a text moves its errors and nothing else. -/
theorem shift (h : Yields position text tokens failure) (count : Nat) :
    Yields (count + position) text tokens (failure.map (LexError.behind count)) := by
  induction h with
  | nil => exact .nil
  | blank hblank _ ih => exact .blank hblank ih
  | @token position token spelling rest tokens failure hfirst _ ih =>
    rw [← Nat.add_assoc] at ih
    exact .token hfirst ih
  | error hblank hnone => exact .error hblank hnone

end Yields

/-- A token at the beginning of a text ends before the first blank. -/
theorem prefix_of_isSome (h : (ofSpelling? part).isSome) (hc : Token.isBlank c)
    (hpart : part <+: text ++ c :: rest) : part <+: text := by
  obtain ⟨behind, hbehind⟩ := hpart
  rcases List.append_eq_append_iff.mp hbehind with ⟨more, rfl, -⟩ | ⟨more, rfl, hmore⟩
  · exact List.prefix_append _ _
  · cases more with
    | nil => simp
    | cons d more =>
      obtain ⟨rfl, -⟩ := List.cons.inj hmore
      exact absurd hc (not_isBlank_of_mem h (by simp))

theorem IsFirst.append_blank (h : IsFirst token spelling text) (hc : Token.isBlank c)
    (rest : List Char) : IsFirst token spelling (text ++ c :: rest) where
  spells := h.spells
  longest := ⟨h.longest.holds, fun more hmore hlonger ↦ by
    have hpart : spelling ++ more <+: spelling ++ (text ++ c :: rest) :=
      (List.prefix_append_right_inj spelling).mpr hmore
    rw [← List.append_assoc] at hpart
    have hends := prefix_of_isSome hlonger hc hpart
    exact h.longest.longest more ((List.prefix_append_right_inj spelling).mp hends) hlonger⟩

/-- A longest token is one also if less of the text follows. -/
theorem IsFirst.of_append (h : IsFirst token spelling (text ++ rest)) :
    IsFirst token spelling text where
  spells := h.spells
  longest := ⟨h.longest.holds, fun more hmore ↦
    h.longest.longest more (hmore.trans (List.prefix_append text rest))⟩

namespace Yields

/-- **Behind a blank a text yields what it yields alone.** -/
theorem append (h : Yields position text tokens none) (hc : Token.isBlank c)
    (hrest : Yields (position + text.length) (c :: rest) later failure) :
    Yields position (text ++ c :: rest) (tokens ++ later) failure := by
  generalize hfailure : none = failure' at h
  induction h with
  | nil => exact hrest
  | @blank position d text tokens failure' hblank _ ih =>
    refine .blank hblank (ih ?_ hfailure)
    rwa [List.length_cons, Nat.add_comm text.length, ← Nat.add_assoc] at hrest
  | @token position token spelling text tokens failure' hfirst _ ih =>
    rw [List.append_assoc, List.cons_append]
    refine .token (hfirst.append_blank hc rest) (ih ?_ hfailure)
    rwa [List.length_append, ← Nat.add_assoc] at hrest
  | error => cases hfailure

/-- **In front of a blank a text fails as it does alone.** -/
theorem append_of_error (h : Yields position text tokens (some e)) (hc : Token.isBlank c)
    (rest : List Char) : Yields position (text ++ c :: rest) tokens (some e) := by
  generalize hfailure : some e = failure at h
  induction h with
  | nil => cases hfailure
  | blank hblank _ ih => exact .blank hblank (ih hfailure)
  | token hfirst _ ih =>
    rw [List.append_assoc]
    exact .token (hfirst.append_blank hc rest) (ih hfailure)
  | @error position d text hblank hnone =>
    refine .error hblank fun part hpart ↦ Option.not_isSome_iff_eq_none.mp fun hsome ↦ ?_
    rw [hnone part (prefix_of_isSome hsome hc hpart)] at hsome
    cases hsome

/-- **Up to its error a text yields the same tokens.** -/
theorem split (h : Yields position text tokens (some e)) :
    ∃ before after, text = before ++ e.found :: after ∧ e.position = position + before.length ∧
      Yields position before tokens none ∧ ¬ Token.isBlank e.found ∧
      ofSpelling? [e.found] = none := by
  generalize hfailure : some e = failure at h
  induction h with
  | nil => cases hfailure
  | @blank position c text tokens failure hblank _ ih =>
    obtain ⟨before, after, rfl, hposition, hbefore, hfound⟩ := ih hfailure
    refine ⟨c :: before, after, rfl, ?_, .blank hblank hbefore, hfound⟩
    rw [hposition, List.length_cons, Nat.add_comm before.length, Nat.add_assoc]
  | @token position token spelling text tokens failure hfirst _ ih =>
    obtain ⟨before, after, rfl, hposition, hbefore, hfound⟩ := ih hfailure
    refine ⟨spelling ++ before, after, by simp, ?_, .token hfirst.of_append hbefore, hfound⟩
    rw [hposition, List.length_append, Nat.add_assoc]
  | @error position c rest hblank hnone =>
    cases hfailure
    exact ⟨[], rest, rfl, rfl, .nil, hblank, hnone [c] (by simp)⟩

/-- Every token takes a character that is no blank. -/
theorem length_le (h : Yields position text tokens failure) :
    tokens.length ≤ text.countP fun c ↦ !Token.isBlank c := by
  induction h with
  | nil => exact Nat.le_refl _
  | blank hblank _ ih => rwa [List.countP_cons_of_neg (by simpa using hblank)]
  | @token position token spelling rest tokens failure hfirst _ ih =>
    have hspelling : spelling.countP (fun c ↦ !Token.isBlank c) = spelling.length :=
      List.countP_eq_length.mpr fun c hc ↦ by
        simpa using not_isBlank_of_mem hfirst.longest.holds hc
    have hpos := hfirst.length_pos
    rw [List.length_cons, List.countP_append, hspelling]
    omega
  | error => exact Nat.zero_le _

end Yields

end Token

end Calculator
