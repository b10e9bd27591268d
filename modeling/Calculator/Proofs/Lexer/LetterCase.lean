import Calculator.Proofs.Lexer.Munch

/-!
# Letter case in a text

A text in lower case has the same tokens as the text itself, except that the exponent of a number
is marked by a small letter there, or it has a lexical error at the same place. Such a number is
read as the same double.

## Case is put away on one side

Two texts that differ in letter case only are not compared with each other but each with the text in
lower case, which is the same for both. So every lemma is about one run: to put its input in lower
case and to run commute.
-/

namespace Calculator

/-! ## Characters -/

section Characters

variable {c p : Char}

/-- A letter stays a letter in lower case, so nothing else becomes one or comes from one. -/
theorem toLower_eq_iff (hp : ¬ p.isAlpha) : c.toLower = p ↔ c = p := by
  by_cases hc : c.isUpper
  · have hletter : c.isAlpha := by rw [Char.isAlpha, hc, Bool.true_or]
    refine iff_of_false ?_ ?_
    · rintro rfl
      exact hp (by rwa [Char.isAlpha_toLower_eq_isAlpha])
    · rintro rfl
      exact hp hletter
  · rw [Char.toLower_eq_of_not_isUpper hc]

private theorem isDigit_toLower (c : Char) : c.toLower.isDigit = c.isDigit := by
  by_cases hc : c.isAlpha
  · have hlower : c.toLower.isAlpha := by rwa [Char.isAlpha_toLower_eq_isAlpha]
    rw [Bool.eq_iff_iff]
    exact iff_of_false (fun h ↦ Token.not_isAlpha_of_isDigit h hlower)
      fun h ↦ Token.not_isAlpha_of_isDigit h hc
  · have hupper : ¬ c.isUpper := fun h ↦ hc (by rw [Char.isAlpha, h, Bool.true_or])
    rw [Char.toLower_eq_of_not_isUpper hupper]

private theorem isDigit_comp_toLower :
    Char.isDigit ∘ Char.toLower = Char.isDigit := funext isDigit_toLower

private theorem isBlank_toLower (c : Char) : Token.isBlank c.toLower = Token.isBlank c := by
  rw [Bool.eq_iff_iff]
  simp only [Token.isBlank, decide_eq_true_eq]
  rw [toLower_eq_iff (by decide), toLower_eq_iff (by decide), toLower_eq_iff (by decide),
    toLower_eq_iff (by decide)]

private theorem isMarker_toLower (c : Char) :
    c.toLower = 'e' ∨ c.toLower = 'E' ↔ c = 'e' ∨ c = 'E' := by
  by_cases hc : c.isUpper
  · have hrange : 65 ≤ c.toNat ∧ c.toNat ≤ 90 := by
      simpa [Char.isUpper, UInt32.le_iff_toNat_le] using hc
    have hlower : c.toLower.toNat = c.toNat + 32 := by
      rw [Char.toLower_eq_of_isUpper hc, Char.toNat_ofNat, if_pos (.inl (by omega))]
    simp only [← Char.toNat_inj, hlower]
    change c.toNat + 32 = 101 ∨ c.toNat + 32 = 69 ↔ c.toNat = 101 ∨ c.toNat = 69
    omega
  · rw [Char.toLower_eq_of_not_isUpper hc]

end Characters

/-! ## Numbers -/

namespace Token

variable {text : List Char} {c : Char}

private theorem areDigits_lower (text : List Char) :
    areDigits (text.map Char.toLower) = areDigits text := by
  rw [areDigits, areDigits, List.isEmpty_map, List.all_map, isDigit_comp_toLower]

private theorem splitSign_of_ne (hminus : c ≠ '-') (hplus : c ≠ '+') :
    Number.splitSign (c :: text) = (false, c :: text) := by
  rw [Number.splitSign]
  · rintro rest ⟨⟩
    exact hminus rfl
  · rintro rest ⟨⟩
    exact hplus rfl

private theorem splitSign_lower (text : List Char) :
    Number.splitSign (text.map Char.toLower)
      = ((Number.splitSign text).1, (Number.splitSign text).2.map Char.toLower) := by
  cases text with
  | nil => rfl
  | cons c rest =>
    by_cases hminus : c = '-'
    · rw [hminus]
      rfl
    by_cases hplus : c = '+'
    · rw [hplus]
      rfl
    have hminus' := mt (toLower_eq_iff (c := c) (p := '-') (by decide)).mp hminus
    have hplus' := mt (toLower_eq_iff (c := c) (p := '+') (by decide)).mp hplus
    rw [List.map_cons, splitSign_of_ne hminus' hplus', splitSign_of_ne hminus hplus]
    rfl

private theorem isExponent_lower (text : List Char) :
    isExponent (text.map Char.toLower) = isExponent text := by
  cases text with
  | nil => rfl
  | cons marker rest =>
    rw [List.map_cons, isExponent, isExponent, splitSign_lower, areDigits_lower, Bool.eq_iff_iff]
    simp only [Bool.and_eq_true, Bool.or_eq_true, decide_eq_true_eq, isMarker_toLower]

private theorem isNumberText_lower (text : List Char) :
    isNumberText (text.map Char.toLower) = isNumberText text := by
  rw [isNumberText, isNumberText, List.takeWhile_map, List.dropWhile_map, isDigit_comp_toLower,
    areDigits_lower]
  generalize text.dropWhile Char.isDigit = rest
  cases rest with
  | nil => rfl
  | cons c fraction =>
    by_cases hc : c = '.'
    · have hpoint : (c :: fraction).map Char.toLower = '.' :: fraction.map Char.toLower := by
        rw [hc]
        rfl
      rw [hpoint, hc]
      simp only [List.takeWhile_map, List.dropWhile_map, isDigit_comp_toLower, areDigits_lower,
        isExponent_lower]
    · have hpoint := mt (toLower_eq_iff (c := c) (p := '.') (by decide)).mp hc
      rw [List.map_cons]
      split
      · next heq => exact absurd (List.cons.inj heq).1 hpoint
      · split
        · next heq => exact absurd (List.cons.inj heq).1 hc
        · rw [← List.map_cons, isExponent_lower]

/-! ## Values of numbers -/

private theorem lower_of_isDigit (h : ∀ c ∈ text, c.isDigit) : text.map Char.toLower = text := by
  refine (List.map_congr_left fun c hc ↦ ?_).trans (List.map_id text)
  refine Char.toLower_eq_of_not_isUpper fun hupper ↦ not_isAlpha_of_isDigit (h c hc) ?_
  rw [Char.isAlpha, hupper, Bool.true_or]

private theorem lower_takeWhile_isDigit (text : List Char) :
    (text.takeWhile Char.isDigit).map Char.toLower = text.takeWhile Char.isDigit :=
  lower_of_isDigit fun _ hc ↦ List.mem_takeWhile_imp hc

private theorem exponent?_lower (text : List Char) :
    Number.exponent? (text.map Char.toLower) = Number.exponent? text := by
  cases text with
  | nil => rfl
  | cons marker rest =>
    rw [List.map_cons, Number.exponent?, Number.exponent?, splitSign_lower]
    dsimp only
    generalize Number.splitSign rest = split
    obtain ⟨negative, digits⟩ := split
    simp only [isMarker_toLower, ne_eq, List.map_eq_nil_iff, List.all_map, isDigit_comp_toLower]
    split
    · next h => rw [lower_of_isDigit (List.all_eq_true.mp h.2.2)]
    · rfl

private theorem splitFraction_of_ne (hc : c ≠ '.') :
    Number.splitFraction (c :: text) = ([], c :: text) := by
  rw [Number.splitFraction]
  rintro rest ⟨⟩
  exact hc rfl

private theorem splitFraction_lower (text : List Char) :
    Number.splitFraction (text.map Char.toLower)
      = ((Number.splitFraction text).1, (Number.splitFraction text).2.map Char.toLower) := by
  cases text with
  | nil => rfl
  | cons c rest =>
    by_cases hc : c = '.'
    · have hpoint : (c :: rest).map Char.toLower = '.' :: rest.map Char.toLower := by
        rw [hc]
        rfl
      rw [hpoint, hc]
      simp only [Number.splitFraction, List.span_eq_takeWhile_dropWhile, List.takeWhile_map,
        List.dropWhile_map, isDigit_comp_toLower, lower_takeWhile_isDigit]
    · have hpoint := mt (toLower_eq_iff (c := c) (p := '.') (by decide)).mp hc
      rw [List.map_cons, splitFraction_of_ne hpoint, splitFraction_of_ne hc]
      rfl

private theorem decimal?_lower (text : List Char) :
    Number.decimal? (text.map Char.toLower) = Number.decimal? text := by
  rw [Number.decimal?, Number.decimal?, List.span_eq_takeWhile_dropWhile,
    List.span_eq_takeWhile_dropWhile, List.takeWhile_map, List.dropWhile_map, isDigit_comp_toLower,
    lower_takeWhile_isDigit]
  dsimp only
  rw [splitFraction_lower]
  dsimp only
  rw [exponent?_lower]

/-! ## Tokens -/

/-- A number literal with a small letter as the marker of its exponent. -/
def foldMarker (literal : String) : String :=
  String.ofList (literal.toList.map fun c ↦ if c = 'E' then 'e' else c)

/-- A token with a small letter as the marker of its exponent, if it is a number with one. -/
def foldCase : Token → Token
  | number literal => number (foldMarker literal)
  | token => token

/-- The only letter in a number is the marker of its exponent. -/
theorem foldMarker_of_isNumberText (h : isNumberText text) :
    foldMarker (String.ofList text) = String.ofList (text.map Char.toLower) := by
  rw [foldMarker, String.toList_ofList]
  refine congrArg String.ofList (List.map_congr_left fun c hc ↦ ?_)
  rcases mem_isNumberText h hc with hdigit | hother
  · have hupper : ¬ c.isUpper := fun hupper ↦
      not_isAlpha_of_isDigit hdigit (by rw [Char.isAlpha, hupper, Bool.true_or])
    have hmarker : c ≠ 'E' := by
      rintro rfl
      exact absurd hdigit (by decide)
    rw [if_neg hmarker, Char.toLower_eq_of_not_isUpper hupper]
  · simp only [List.mem_cons, List.not_mem_nil, or_false] at hother
    rcases hother with rfl | rfl | rfl | rfl | rfl <;> decide

/-- A number with a small marker names the same double. -/
theorem read?_foldMarker {literal : String} (h : isNumberText literal.toList) :
    Number.read? (foldMarker literal) = Number.read? literal := by
  obtain ⟨d, hd⟩ := Option.isSome_iff_exists.mp (isSome_decimal? h)
  have hlower : isNumberText (literal.toList.map Char.toLower) := by rwa [isNumberText_lower]
  have hfold := foldMarker_of_isNumberText h
  rw [String.ofList_toList] at hfold
  rw [hfold, Number.read?, Number.read?, String.toList_ofList, splitSign_of_isNumberText h,
    splitSign_of_isNumberText hlower]
  dsimp only
  rw [Number.magnitude?, Number.magnitude?, decimal?_lower, hd]

private theorem lower_eq_singleton_iff {p : Char} (hp : ¬ p.isAlpha) :
    text.map Char.toLower = [p] ↔ text = [p] := by
  rw [List.map_eq_singleton_iff]
  constructor
  · rintro ⟨c, rfl, hc⟩
    rw [(toLower_eq_iff hp).mp hc]
  · rintro rfl
    exact ⟨p, rfl, (toLower_eq_iff hp).mpr rfl⟩

private theorem lower_lower (text : List Char) :
    (text.map Char.toLower).map Char.toLower = text.map Char.toLower := by
  rw [List.map_map]
  exact List.map_congr_left fun c _ ↦ Char.toLower_toLower_eq_toLower c

/-- An operator is no letter. -/
theorem ofChar?_lower (c : Char) :
    ((Operator.ofChar? c.toLower).map fun _ ↦ operator c.toLower)
      = (Operator.ofChar? c).map fun _ ↦ operator c := by
  have hsymbol : ∀ o : Operator, ¬ o.symbol.isAlpha := fun o ↦ by cases o <;> decide
  by_cases hc : (Operator.ofChar? c).isSome
  · obtain ⟨o, rfl⟩ := isSome_ofChar?_iff.mp hc
    rw [(toLower_eq_iff (hsymbol o)).mpr rfl]
  · have hlower : ¬ (Operator.ofChar? c.toLower).isSome := by
      rw [isSome_ofChar?_iff]
      rintro ⟨o, ho⟩
      rw [(toLower_eq_iff (hsymbol o)).mp ho, o.ofChar?_symbol] at hc
      exact hc rfl
    rw [Option.not_isSome_iff_eq_none.mp hc, Option.not_isSome_iff_eq_none.mp hlower]
    rfl

/-- A spelling in lower case spells the same token, a number with a small marker. -/
theorem ofSpelling?_lower (text : List Char) :
    ofSpelling? (text.map Char.toLower) = (ofSpelling? text).map foldCase := by
  unfold ofSpelling?
  dsimp only
  rw [isNumberText_lower, lower_lower]
  by_cases hnumber : isNumberText text
  · rw [if_pos hnumber, if_pos hnumber, Option.map_some, foldCase,
      foldMarker_of_isNumberText hnumber]
  rw [if_neg hnumber, if_neg hnumber]
  by_cases hopening : text = ['(']
  · subst hopening
    rfl
  rw [if_neg hopening, if_neg (mt (lower_eq_singleton_iff (by decide)).mp hopening)]
  by_cases hclosing : text = [')']
  · subst hclosing
    rfl
  rw [if_neg hclosing, if_neg (mt (lower_eq_singleton_iff (by decide)).mp hclosing)]
  by_cases hname : String.ofList (text.map Char.toLower) ∈ MathFunction.names
  · rw [if_pos hname, if_pos hname]
    rfl
  rw [if_neg hname, if_neg hname]
  match text with
  | [] => rfl
  | [c] =>
    rw [List.map_singleton]
    dsimp only
    rw [ofChar?_lower, Option.map_map]
    rfl
  | c :: d :: text => rfl

private theorem longestWithin_lower (text : List Char) (length : Nat) :
    longestWithin (text.map Char.toLower) length
      = (longestWithin text length).map fun found ↦ (found.1.foldCase, found.2) := by
  induction length with
  | zero => rfl
  | succ length ih =>
    rw [longestWithin, longestWithin, ← List.map_take, ofSpelling?_lower]
    cases ofSpelling? (text.take (length + 1)) with
    | some token => rfl
    | none => exact ih

end Token

/-- A lexical error in the text in lower case. -/
def LexError.foldCase (e : LexError) : LexError := ⟨e.position, e.found.toLower⟩

/-- What becomes of tokens or an error when the text is put in lower case. -/
def foldTokens : Except LexError (List Token) → Except LexError (List Token)
  | .ok tokens => .ok (tokens.map Token.foldCase)
  | .error e => .error e.foldCase

/-- **Letter case does not matter to the lexer.** -/
theorem munch_lower (position : Nat) (text : List Char) :
    Token.munch position (text.map Char.toLower) = foldTokens (Token.munch position text) := by
  -- Each character is dropped or taken in both texts, so what is left has the same length.
  induction hlength : text.length using Nat.strongRecOn generalizing position text with
  | ind length ih =>
    subst hlength
    cases text with
    | nil =>
      rw [List.map_nil, Token.munch_nil]
      rfl
    | cons c rest =>
      rw [List.map_cons, Token.munch, Token.munch, isBlank_toLower, ← List.map_cons,
        List.length_map, Token.longestWithin_lower]
      split
      · exact ih _ (Nat.lt_succ_self _) _ _ rfl
      · cases hfound : Token.longestWithin (c :: rest) (rest.length + 1) with
        | none => rfl
        | some found =>
          obtain ⟨token, n⟩ := found
          have hdrop : (rest.drop n).length < (c :: rest).length := by
            rw [List.length_drop, List.length_cons]
            omega
          have hrest := ih _ hdrop (position + n + 1) (rest.drop n) rfl
          dsimp only [Option.map_some]
          rw [← List.map_drop, hrest]
          cases Token.munch (position + n + 1) (rest.drop n) <;> rfl

end Calculator
