import Calculator.Proofs.Token.Longest
import Mathlib

/-!
# The longest token

What the first token of a text is, found from the first character alone: a digit begins a number, a
letter a function name, and the other characters of tokens stand for themselves. The longest part
of the text that is of the one kind is then the longest that is any token.
-/

namespace Calculator

namespace Token

variable {token : Token} {spelling text rest more blanks : List Char} {c : Char} {position : Nat}

/-! ## Spellings by their first character -/

/-- Whether a text is a function name, in any case of letters. -/
def IsName (text : List Char) : Prop :=
  String.ofList (text.map Char.toLower) ∈ MathFunction.names

/-- Whether a character is a token of its own. -/
def IsSymbol (c : Char) : Prop := c = '(' ∨ c = ')' ∨ (Operator.ofChar? c).isSome

instance (c : Char) : Decidable (IsSymbol c) := inferInstanceAs (Decidable (_ ∨ _ ∨ _))

theorem name_facts (f : MathFunction) :
    f.name.toList ≠ [] ∧ (∀ c ∈ f.name.toList, c.isAlpha) ∧
      f.name.toList.length ≤ MathFunction.longestName := by
  have hlongest : MathFunction.longestName = 4 := by decide
  rw [hlongest]
  cases f <;> simp [MathFunction.name]

theorem IsName.exists_name (h : IsName text) :
    ∃ f : MathFunction, f.name.toList = text.map Char.toLower := by
  obtain ⟨f, -, hname⟩ := List.mem_map.mp h
  exact ⟨f, by rw [hname, String.toList_ofList]⟩

theorem IsName.ne_nil (h : IsName text) : text ≠ [] := by
  obtain ⟨f, hname⟩ := h.exists_name
  have hne := (name_facts f).1
  rw [hname] at hne
  simpa using hne

theorem IsName.isAlpha (h : IsName text) : ∀ c ∈ text, c.isAlpha := by
  obtain ⟨f, hname⟩ := h.exists_name
  have hletters := (name_facts f).2.1
  rw [hname] at hletters
  simpa using hletters

theorem IsName.length_le (h : IsName text) : text.length ≤ MathFunction.longestName := by
  obtain ⟨f, hname⟩ := h.exists_name
  have hlength := (name_facts f).2.2
  rwa [hname, List.length_map] at hlength

theorem isDigit_of_isNumberText (h : isNumberText (c :: text)) : c.isDigit := by
  obtain ⟨digits, tail, hdigits, -, heq⟩ := isNumberText_iff.mp h
  obtain ⟨hne, hall⟩ := areDigits_iff.mp hdigits
  obtain ⟨digit, digits, rfl⟩ := List.exists_cons_of_ne_nil hne
  cases heq
  exact hall _ List.mem_cons_self

theorem not_isAlpha_of_isDigit (h : c.isDigit) : ¬ c.isAlpha := by
  simp only [Char.isDigit, Char.isAlpha, Char.isUpper, Char.isLower, Bool.and_eq_true,
    Bool.or_eq_true, decide_eq_true_eq, UInt32.le_iff_toNat_le, ge_iff_le] at h ⊢
  change 48 ≤ c.toNat ∧ c.toNat ≤ 57 at h
  change ¬ (65 ≤ c.toNat ∧ c.toNat ≤ 90 ∨ 97 ≤ c.toNat ∧ c.toNat ≤ 122)
  omega

theorem isSome_ofChar?_iff : (Operator.ofChar? c).isSome ↔ ∃ o : Operator, c = o.symbol := by
  rw [Option.isSome_iff_exists]
  constructor
  · rintro ⟨o, ho⟩
    exact ⟨o, (Operator.symbol_of_ofChar? ho).symm⟩
  · rintro ⟨o, rfl⟩
    exact ⟨o, o.ofChar?_symbol⟩

theorem IsSymbol.not_isDigit (h : IsSymbol c) : ¬ c.isDigit := by
  rcases h with rfl | rfl | h
  · decide
  · decide
  · obtain ⟨o, rfl⟩ := isSome_ofChar?_iff.mp h
    cases o <;> decide

theorem IsSymbol.not_isAlpha (h : IsSymbol c) : ¬ c.isAlpha := by
  rcases h with rfl | rfl | h
  · decide
  · decide
  · obtain ⟨o, rfl⟩ := isSome_ofChar?_iff.mp h
    cases o <;> decide

/-- What spells each kind of token. -/
theorem ofSpelling?_cases (h : ofSpelling? text = some token) :
    (isNumberText text ∧ token = .number (String.ofList text)) ∨
      (IsName text ∧ token = .function (String.ofList (text.map Char.toLower))) ∨
      (text = ['('] ∧ token = .opening) ∨ (text = [')'] ∧ token = .closing) ∨
      ∃ o : Operator, text = [o.symbol] ∧ token = .operator o.symbol := by
  unfold ofSpelling? at h
  dsimp only at h
  split at h
  · next hnumber => exact .inl ⟨hnumber, (Option.some.inj h).symm⟩
  split at h
  · next hopening => exact .inr (.inr (.inl ⟨hopening, (Option.some.inj h).symm⟩))
  split at h
  · next hclosing => exact .inr (.inr (.inr (.inl ⟨hclosing, (Option.some.inj h).symm⟩)))
  split at h
  · next hname => exact .inr (.inl ⟨hname, (Option.some.inj h).symm⟩)
  split at h
  · obtain ⟨o, ho, rfl⟩ := Option.map_eq_some_iff.mp h
    rw [← Operator.symbol_of_ofChar? ho]
    exact .inr (.inr (.inr (.inr ⟨o, rfl, rfl⟩)))
  · cases h

/-- A token is a number, a function name or a character of its own. -/
theorem kind_of_isSome (h : (ofSpelling? text).isSome) :
    isNumberText text ∨ IsName text ∨ ∃ c, text = [c] ∧ IsSymbol c := by
  obtain ⟨token, htoken⟩ := Option.isSome_iff_exists.mp h
  rcases ofSpelling?_cases htoken with
    ⟨hnumber, -⟩ | ⟨hname, -⟩ | ⟨rfl, -⟩ | ⟨rfl, -⟩ | ⟨o, rfl, -⟩
  · exact .inl hnumber
  · exact .inr (.inl hname)
  · exact .inr (.inr ⟨'(', rfl, .inl rfl⟩)
  · exact .inr (.inr ⟨')', rfl, .inr (.inl rfl)⟩)
  · exact .inr (.inr ⟨o.symbol, rfl, .inr (.inr (isSome_ofChar?_iff.mpr ⟨o, rfl⟩))⟩)

theorem not_isNumberText_of_head (hc : ¬ c.isDigit) : ¬ isNumberText (c :: text) :=
  fun h ↦ hc (isDigit_of_isNumberText h)

private theorem not_isName_of_head (hc : ¬ c.isAlpha) : ¬ IsName (c :: text) :=
  fun h ↦ hc (h.isAlpha c List.mem_cons_self)

private theorem isNumberText_of_isSome (hc : c.isDigit) (h : (ofSpelling? (c :: text)).isSome) :
    isNumberText (c :: text) := by
  rcases kind_of_isSome h with h | h | ⟨_, heq, hsymbol⟩
  · exact h
  · exact absurd h (not_isName_of_head (not_isAlpha_of_isDigit hc))
  · cases heq
    exact absurd hc hsymbol.not_isDigit

private theorem isName_of_isSome (hc : c.isAlpha) (h : (ofSpelling? (c :: text)).isSome) :
    IsName (c :: text) := by
  rcases kind_of_isSome h with h | h | ⟨_, heq, hsymbol⟩
  · exact absurd hc (not_isAlpha_of_isDigit (isDigit_of_isNumberText h))
  · exact h
  · cases heq
    exact absurd hc hsymbol.not_isAlpha

private theorem eq_nil_of_isSome (hc : IsSymbol c) (h : (ofSpelling? (c :: text)).isSome) :
    text = [] := by
  rcases kind_of_isSome h with h | h | ⟨_, heq, -⟩
  · exact absurd h (not_isNumberText_of_head hc.not_isDigit)
  · exact absurd h (not_isName_of_head hc.not_isAlpha)
  · cases heq
    rfl

/-! ## Blanks -/

theorem blank_cases (h : Token.isBlank c) : c = ' ' ∨ c = '\t' ∨ c = '\r' ∨ c = '\n' := by
  simpa [Token.isBlank] using h

theorem not_isAlpha_of_isBlank (h : Token.isBlank c) : ¬ c.isAlpha := by
  rcases blank_cases h with rfl | rfl | rfl | rfl <;> decide

/-- What stands in a number: digits, its point, the marker of its exponent and the sign of that. -/
theorem mem_isNumberText (h : isNumberText text) (hc : c ∈ text) :
    c.isDigit ∨ c ∈ ['.', 'e', 'E', '+', '-'] := by
  obtain ⟨whole, _, hwhole, ⟨fraction, exponent, hfraction, hexponent, rfl⟩, rfl⟩ :=
    isNumberText_iff.mp h
  rcases List.mem_append.mp hc with hc | hc
  · exact .inl ((areDigits_iff.mp hwhole).2 c hc)
  rcases List.mem_append.mp hc with hc | hc
  · cases fraction with
    | nil => cases hc
    | cons point digits =>
      obtain ⟨rfl, hdigits⟩ := isFraction_cons_iff.mp hfraction
      rcases List.mem_cons.mp hc with rfl | hc
      · exact .inr (by decide)
      · exact .inl ((areDigits_iff.mp hdigits).2 c hc)
  · cases exponent with
    | nil => cases hc
    | cons marker exponent =>
      obtain ⟨hmarker, signs, digits, hsigns, hdigits, rfl⟩ := isExponent_cons_iff.mp hexponent
      rcases List.mem_cons.mp hc with rfl | hc
      · exact .inr (by rcases hmarker with rfl | rfl <;> decide)
      rcases List.mem_append.mp hc with hc | hc
      · right
        rcases hsigns with rfl | rfl | rfl
        · cases hc
        · cases List.mem_singleton.mp hc
          decide
        · cases List.mem_singleton.mp hc
          decide
      · exact .inl ((areDigits_iff.mp hdigits).2 c hc)

/-- No blank stands in a token. -/
theorem not_isBlank_of_mem (h : (ofSpelling? text).isSome) (hc : c ∈ text) :
    ¬ Token.isBlank c := by
  intro hblank
  rcases kind_of_isSome h with h | h | ⟨d, rfl, hsymbol⟩
  · have hnumber := mem_isNumberText h hc
    rcases blank_cases hblank with rfl | rfl | rfl | rfl <;> exact absurd hnumber (by decide)
  · exact not_isAlpha_of_isBlank hblank (h.isAlpha c hc)
  · cases List.mem_singleton.mp hc
    rcases blank_cases hblank with rfl | rfl | rfl | rfl <;> exact absurd hsymbol (by decide)

private theorem not_isBlank_of_isSome (h : (ofSpelling? (c :: text)).isSome) : ¬ Token.isBlank c :=
  not_isBlank_of_mem h List.mem_cons_self

/-! ## First tokens -/

/-- The token is the first of a text: it is spelled by the longest part of the text that is one. -/
structure IsFirst (token : Token) (spelling rest : List Char) : Prop where
  spells : ofSpelling? spelling = some token
  longest : IsLongest (fun text ↦ (ofSpelling? text).isSome) spelling rest

theorem ofSpelling?_of_isNumberText (h : isNumberText text) :
    ofSpelling? text = some (.number (String.ofList text)) := if_pos h

theorem ofSpelling?_of_isName (h : IsName text) :
    ofSpelling? text = some (.function (String.ofList (text.map Char.toLower))) := by
  obtain ⟨c, text, rfl⟩ := List.exists_cons_of_ne_nil h.ne_nil
  have hletter := h.isAlpha c List.mem_cons_self
  have hnumber : ¬ isNumberText (c :: text) :=
    not_isNumberText_of_head fun hdigit ↦ not_isAlpha_of_isDigit hdigit hletter
  have hopening : c :: text ≠ ['('] := by
    rintro ⟨⟩
    exact absurd hletter (by decide)
  have hclosing : c :: text ≠ [')'] := by
    rintro ⟨⟩
    exact absurd hletter (by decide)
  unfold ofSpelling?
  dsimp only
  rw [if_neg hnumber, if_neg hopening, if_neg hclosing]
  exact if_pos h

theorem isFirst_number (h : IsLongest (isNumberText ·) spelling rest) :
    IsFirst (.number (String.ofList spelling)) spelling rest := by
  have hspells := ofSpelling?_of_isNumberText h.holds
  refine ⟨hspells, h.mono (by rw [hspells]; rfl) fun more hmore ↦ ?_⟩
  cases spelling with
  | nil => cases h.holds
  | cons c spelling => exact isNumberText_of_isSome (isDigit_of_isNumberText h.holds) hmore

theorem isFirst_function (h : IsLongest IsName spelling rest) :
    IsFirst (.function (String.ofList (spelling.map Char.toLower))) spelling rest := by
  have hspells := ofSpelling?_of_isName h.holds
  refine ⟨hspells, h.mono (by rw [hspells]; rfl) fun more hmore ↦ ?_⟩
  obtain ⟨c, spelling, rfl⟩ := List.exists_cons_of_ne_nil h.holds.ne_nil
  exact isName_of_isSome (h.holds.isAlpha c List.mem_cons_self) hmore

private theorem isFirst_symbol (hc : IsSymbol c) (hspells : ofSpelling? [c] = some token) :
    IsFirst token [c] rest where
  spells := hspells
  longest := ⟨by rw [hspells]; rfl, fun _ _ hmore ↦ eq_nil_of_isSome hc hmore⟩

theorem isFirst_opening : IsFirst .opening ['('] rest := isFirst_symbol (.inl rfl) (by decide)

theorem isFirst_closing : IsFirst .closing [')'] rest :=
  isFirst_symbol (.inr (.inl rfl)) (by decide)

theorem isFirst_operator (o : Operator) : IsFirst (.operator o.symbol) [o.symbol] rest := by
  refine isFirst_symbol (.inr (.inr ?_)) ?_
  · rw [o.ofChar?_symbol]
    rfl
  · cases o <;> decide

/-- A text whose first character begins no token. -/
theorem ofSpelling?_eq_none (hdigit : ¬ c.isDigit) (hsymbol : ¬ IsSymbol c)
    (hname : ∀ text, text <+: c :: rest → ¬ IsName text) (h : text <+: c :: rest) :
    ofSpelling? text = none := by
  rw [← Option.not_isSome_iff_eq_none]
  intro hsome
  rcases kind_of_isSome hsome with hnumber | hfunction | ⟨c, rfl, hc⟩
  · cases text with
    | nil => cases hnumber
    | cons c' text =>
      obtain ⟨rfl, -⟩ := List.cons_prefix_cons.mp h
      exact hdigit (isDigit_of_isNumberText hnumber)
  · exact hname text h hfunction
  · obtain ⟨rfl, -⟩ := List.cons_prefix_cons.mp h
    exact hsymbol hc

/-! ## The longest part that is a token -/

theorem ofSpelling?_of_longestWithin_none {length : Nat} (h : longestWithin text length = none)
    {k : Nat} (hpos : 0 < k) (hk : k ≤ length) : ofSpelling? (text.take k) = none := by
  fun_induction longestWithin text length with
  | case1 => omega
  | case2 => cases h
  | case3 n hspells ih =>
    rcases Nat.lt_or_eq_of_le hk with hlt | rfl
    · exact ih h (Nat.le_of_lt_succ hlt)
    · exact hspells

theorem of_longestWithin_some {length n : Nat} (h : longestWithin text length = some (token, n)) :
    n < length ∧ ofSpelling? (text.take (n + 1)) = some token ∧
      ∀ k, n + 1 < k → k ≤ length → ofSpelling? (text.take k) = none := by
  fun_induction longestWithin text length with
  | case1 => cases h
  | case2 n token hspells =>
    cases h
    exact ⟨Nat.lt_succ_self n, hspells, fun k hk hle ↦ by omega⟩
  | case3 m hspells ih =>
    obtain ⟨hlt, htoken, hlonger⟩ := ih h
    refine ⟨Nat.lt_succ_of_lt hlt, htoken, fun k hk hle ↦ ?_⟩
    rcases Nat.lt_or_eq_of_le hle with hlt | rfl
    · exact hlonger k hk (Nat.le_of_lt_succ hlt)
    · exact hspells

theorem isFirst_of_longestWithin {n : Nat} (h : longestWithin text text.length = some (token, n)) :
    IsFirst token (text.take (n + 1)) (text.drop (n + 1)) := by
  obtain ⟨hlt, hspells, hlonger⟩ := of_longestWithin_some h
  refine ⟨hspells, by rw [hspells]; rfl, fun more hmore hsome ↦ ?_⟩
  have hbegins : text.take (n + 1) ++ more <+: text := by
    obtain ⟨behind, hbehind⟩ := hmore
    exact ⟨behind, by rw [List.append_assoc, hbehind, List.take_append_drop]⟩
  have htake := List.prefix_iff_eq_take.mp hbegins
  by_contra hne
  have hlength : (text.take (n + 1) ++ more).length = n + 1 + more.length := by
    rw [List.length_append, List.length_take]
    omega
  have hpos : 0 < more.length := List.length_pos_iff.mpr hne
  rw [htake, hlonger _ (by omega) hbegins.length_le] at hsome
  cases hsome

theorem IsFirst.length_pos (h : IsFirst token spelling rest) : 0 < spelling.length := by
  refine List.length_pos_iff.mpr ?_
  rintro rfl
  have hspells := h.spells
  have hnothing : ofSpelling? [] = none := by decide
  rw [hnothing] at hspells
  cases hspells

private theorem longestWithin_of_isFirst (h : IsFirst token spelling rest) :
    longestWithin (spelling ++ rest) (spelling ++ rest).length
      = some (token, spelling.length - 1) := by
  cases hwithin : longestWithin (spelling ++ rest) (spelling ++ rest).length with
  | none =>
    have hnone := ofSpelling?_of_longestWithin_none hwithin h.length_pos (by simp)
    rw [List.take_left' rfl, h.spells] at hnone
    cases hnone
  | some found =>
    obtain ⟨token', n⟩ := found
    have hfirst := isFirst_of_longestWithin hwithin
    obtain ⟨hspelling, -⟩ := h.longest.unique hfirst.longest (List.take_append_drop ..).symm
    have hspells := hfirst.spells
    rw [← hspelling, h.spells] at hspells
    cases hspells
    have hlength := congrArg List.length hspelling
    rw [List.length_take] at hlength
    have hlt := (of_longestWithin_some hwithin).1
    have hn : spelling.length - 1 = n := by omega
    rw [hn]

/-! ## The tokens of a text, one after the other -/

theorem munch_nil (position : Nat) : munch position [] = .ok [] := by
  rw [munch]

theorem munch_blanks (hblanks : ∀ c ∈ blanks, Token.isBlank c) (position : Nat)
    (text : List Char) :
    munch position (blanks ++ text) = munch (position + blanks.length) text := by
  induction blanks generalizing position with
  | nil => rfl
  | cons c blanks ih =>
    rw [List.cons_append, munch, if_pos (hblanks c List.mem_cons_self),
      ih fun c hc ↦ hblanks c (List.mem_cons_of_mem _ hc)]
    rw [List.length_cons, Nat.add_right_comm, Nat.add_assoc]

theorem munch_token (h : IsFirst token spelling rest) (position : Nat) :
    munch position (spelling ++ rest) = do
      return token :: (← munch (position + spelling.length) rest) := by
  obtain ⟨c, spelling, rfl⟩ := List.exists_cons_of_ne_nil (List.length_pos_iff.mp h.length_pos)
  have hblank := not_isBlank_of_isSome h.longest.holds
  have hwithin : longestWithin (c :: (spelling ++ rest)) ((spelling ++ rest).length + 1)
      = some (token, spelling.length) := longestWithin_of_isFirst h
  rw [List.cons_append, munch, if_neg hblank, hwithin]
  dsimp only
  rw [List.drop_left' rfl]
  rfl

theorem munch_error (hnone : ∀ text, text <+: c :: rest → ofSpelling? text = none)
    (hblank : ¬ Token.isBlank c) (position : Nat) :
    munch position (c :: rest) = .error ⟨position, c⟩ := by
  have hwithin : longestWithin (c :: rest) (rest.length + 1) = none := by
    cases h : longestWithin (c :: rest) (rest.length + 1) with
    | none => rfl
    | some found =>
      have hspells := (of_longestWithin_some h).2.1
      rw [hnone _ (List.take_prefix _ _)] at hspells
      cases hspells
  rw [munch, if_neg hblank, hwithin]

end Token

end Calculator
