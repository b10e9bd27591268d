import Calculator.Proofs.Lexer.Munch

/-!
# Every written text is read back

Tokens written down in any way are what the lexer reads: the case of letters does not matter, and
blanks matter between two numbers only. Together with the converse this says which texts have which
tokens.

## Where two tokens meet

Without a blank the longest token could reach into the text of the next one. A number goes on with a
digit, a point or an exponent, and the only token that begins like an exponent is a function name,
whose second character is a letter too. A name that is longer than another goes on with an `h`,
which begins no token.
-/

namespace Calculator

namespace Token

variable {token : Token} {tokens : List Token} {spelling rest : List Char} {c : Char}
  {position : Nat}

/-- Whether some text spells a token: a number by its grammar, a known operator or function. -/
def IsLexical : Token → Prop
  | number literal => isNumberText literal.toList
  | operator symbol => (Operator.ofChar? symbol).isSome
  | function name => name ∈ MathFunction.names
  | opening | closing => True

private theorem spells_of_isWrittenAs (htoken : token.IsLexical) (h : token.IsWrittenAs spelling) :
    ofSpelling? spelling = some token := by
  cases token with
  | number literal =>
    have hspelling : spelling = literal.toList := h
    rw [hspelling, ofSpelling?_of_isNumberText htoken, String.ofList_toList]
  | operator symbol =>
    obtain ⟨o, rfl⟩ := isSome_ofChar?_iff.mp htoken
    have hspelling : spelling = [o.symbol] := by simpa [IsWrittenAs, text] using h
    have hfirst : IsFirst (.operator o.symbol) [o.symbol] [] := isFirst_operator o
    rw [hspelling]
    exact hfirst.spells
  | function name =>
    have hlower : spelling.map Char.toLower = name.toList := h
    have hname : String.ofList (spelling.map Char.toLower) = name := by
      rw [hlower, String.ofList_toList]
    have hspells : IsName spelling := by rwa [IsName, hname]
    rw [ofSpelling?_of_isName hspells, hname]
  | opening =>
    cases h
    decide
  | closing =>
    cases h
    decide

private theorem isLexical_of_spells (h : ofSpelling? spelling = some token) : token.IsLexical := by
  rcases ofSpelling?_cases h with ⟨hnumber, rfl⟩ | ⟨hname, rfl⟩ | ⟨-, rfl⟩ | ⟨-, rfl⟩ | ⟨o, -, rfl⟩
  · rw [IsLexical, String.toList_ofList]
    exact hnumber
  · exact hname
  · trivial
  · trivial
  · exact isSome_ofChar?_iff.mpr ⟨o, rfl⟩

theorem isLexical_of_munch {text : List Char} (h : munch position text = .ok tokens) :
    ∀ token ∈ tokens, token.IsLexical := by
  refine munch_induction (fun _ tokens ↦ ∀ token ∈ tokens, token.IsLexical) ?nil ?blank ?first h
  case nil => rintro _ ⟨⟩
  case blank => exact fun _ ih ↦ ih
  case first =>
    intro first spelling rest tokens position hfirst _ ih
    exact List.forall_mem_cons.mpr ⟨isLexical_of_spells hfirst.spells, ih⟩

/-! ## What begins behind a token -/

/-- What a text begins with: nothing, a blank, or one of its tokens. -/
inductive Begins : List Token → List Char → Prop where
  | nothing : Begins [] []
  | blank {c : Char} {tokens : List Token} {rest : List Char} :
      Token.isBlank c → Begins tokens (c :: rest)
  | token {token : Token} {tokens : List Token} {spelling rest : List Char} :
      ofSpelling? spelling = some token → Begins (token :: tokens) (spelling ++ rest)

private theorem begins_of_writes (htokens : ∀ token ∈ tokens, token.IsLexical)
    (h : Writes tokens rest) : Begins tokens rest := by
  cases h with
  | nil hblanks =>
    cases rest with
    | nil => exact .nothing
    | cons c rest => exact .blank (List.all_eq_true.mp hblanks c List.mem_cons_self)
  | @cons token tokens blanks spelling rest hblanks hspelling _ _ =>
    cases blanks with
    | nil => exact .token (spells_of_isWrittenAs (htokens token List.mem_cons_self) hspelling)
    | cons c blanks => exact .blank (List.all_eq_true.mp hblanks c List.mem_cons_self)

/-! ## Behind a number -/

/-- Whether a number ends before a text: the text continues neither its digits nor its fraction, and
begins with no exponent. -/
structure EndsNumber (rest : List Char) : Prop where
  digit : ∀ c ∈ rest.head?, ¬ c.isDigit
  point : ∀ c ∈ rest.head?, c ≠ '.'
  exponent : IsLongest (isExponent ·) [] rest

theorem head_append_of_isExponent {exponent : List Char} {p : Char → Prop}
    (hexponent : isExponent exponent) (hrest : ∀ c ∈ rest.head?, p c) (hmarkers : p 'e' ∧ p 'E') :
    ∀ c ∈ (exponent ++ rest).head?, p c := by
  cases exponent with
  | nil => exact hrest
  | cons marker exponent =>
    rintro c ⟨⟩
    rcases head_isExponent hexponent with rfl | rfl
    · exact hmarkers.1
    · exact hmarkers.2

theorem EndsNumber.isLongest_exponent {exponent : List Char} (hexponent : isExponent exponent)
    (hrest : EndsNumber rest) : IsLongest (isExponent ·) exponent rest := by
  cases exponent with
  | nil => exact hrest.exponent
  | cons marker exponent =>
    obtain ⟨hmarker, signs, digits, hsigns, hdigits, rfl⟩ := isExponent_cons_iff.mp hexponent
    refine Token.isLongest_exponent hmarker ?_ (isLongest_areDigits hdigits hrest.digit)
    rcases hsigns with rfl | rfl | rfl
    · refine isLongest_noSign fun c hc hsign ↦ ?_
      obtain ⟨hne, hall⟩ := areDigits_iff.mp hdigits
      obtain ⟨digit, digits, rfl⟩ := List.exists_cons_of_ne_nil hne
      cases hc
      have hdigit := hall c List.mem_cons_self
      rcases hsign with rfl | rfl <;> exact absurd hdigit (by decide)
    · exact isLongest_sign (.inl rfl)
    · exact isLongest_sign (.inr rfl)

/-- A number takes no part of a text before which it ends. -/
theorem EndsNumber.isLongest (hnumber : isNumberText spelling) (hrest : EndsNumber rest) :
    IsLongest (isNumberText ·) spelling rest := by
  obtain ⟨whole, _, hwhole, ⟨fraction, exponent, hfraction, hexponent, rfl⟩, rfl⟩ :=
    isNumberText_iff.mp hnumber
  have hdigit := head_append_of_isExponent hexponent hrest.digit (by decide)
  have hpoint := head_append_of_isExponent hexponent hrest.point (by decide)
  refine isLongest_isNumberText ?_ ?_ (hrest.isLongest_exponent hexponent)
  · refine isLongest_areDigits hwhole ?_
    cases fraction with
    | nil => exact hdigit
    | cons point digits =>
      rintro c ⟨⟩
      rw [(isFraction_cons_iff.mp hfraction).1]
      decide
  · cases fraction with
    | nil => exact isLongest_noFraction_of_head hpoint
    | cons point digits =>
      obtain ⟨rfl, hdigits⟩ := isFraction_cons_iff.mp hfraction
      exact isLongest_fraction (isLongest_areDigits hdigits hdigit)

/-- A number ends before a character that continues none. -/
private theorem endsNumber_of_head
    (h : ∀ c ∈ rest.head?, ¬ (c.isDigit ∨ c = '.' ∨ c = 'e' ∨ c = 'E')) : EndsNumber rest where
  digit c hc hdigit := h c hc (.inl hdigit)
  point c hc hpoint := h c hc (.inr (.inl hpoint))
  exponent := isLongest_noExponent_of_head fun c hc hmarker ↦ h c hc (.inr (.inr hmarker))

/-- A function name has a second letter. -/
theorem IsName.exists_cons_cons (h : IsName spelling) :
    ∃ c d letters, spelling = c :: d :: letters := by
  obtain ⟨f, hname⟩ := h.exists_name
  have hlength : 2 ≤ f.name.toList.length := by cases f <;> decide
  rw [hname, List.length_map] at hlength
  match spelling, hlength with
  | c :: d :: letters, _ => exact ⟨c, d, letters, rfl⟩

/-- A number ends before a function name, even one that begins with the marker of an exponent. -/
private theorem endsNumber_of_isName (h : IsName spelling) : EndsNumber (spelling ++ rest) := by
  obtain ⟨c, d, letters, rfl⟩ := h.exists_cons_cons
  have hc : c.isAlpha := h.isAlpha c List.mem_cons_self
  have hd : d.isAlpha := h.isAlpha d (List.mem_cons_of_mem _ List.mem_cons_self)
  have hsign : ¬ (d = '+' ∨ d = '-') := by
    rintro (rfl | rfl) <;> exact absurd hd (by decide)
  refine ⟨?_, ?_, ?_⟩
  · rintro _ ⟨⟩ hdigit
    exact not_isAlpha_of_isDigit hdigit hc
  · rintro _ ⟨⟩ rfl
    exact absurd hc (by decide)
  · have hsigns : IsLongest areSigns [] (d :: (letters ++ rest)) :=
      isLongest_noSign (by rintro _ ⟨⟩; exact hsign)
    have hdigit : ∀ c ∈ (d :: (letters ++ rest)).head?, ¬ c.isDigit := by
      rintro _ ⟨⟩ hdigit
      exact not_isAlpha_of_isDigit hdigit hd
    exact @isLongest_noExponent [] (d :: (letters ++ rest)) c hsigns hdigit

private theorem endsNumber_of_isBlank (h : Token.isBlank c) : EndsNumber (c :: rest) := by
  refine endsNumber_of_head ?_
  rintro _ ⟨⟩
  rcases blank_cases h with rfl | rfl | rfl | rfl <;> decide

private theorem endsNumber_of_begins (h : Begins tokens rest)
    (hnumbers : tokens.head?.any isNumber → rest.head?.any Token.isBlank) :
    EndsNumber rest := by
  cases h with
  | nothing => exact endsNumber_of_head (by rintro _ ⟨⟩)
  | blank hblank => exact endsNumber_of_isBlank hblank
  | @token token tokens spelling rest hspells =>
    rcases ofSpelling?_cases hspells with
      ⟨hnumber, rfl⟩ | ⟨hname, -⟩ | ⟨rfl, -⟩ | ⟨rfl, -⟩ | ⟨o, rfl, -⟩
    · -- A number that stands behind a number has a blank before it.
      obtain ⟨c, text, htext⟩ : ∃ c text, spelling ++ rest = c :: text := by
        cases spelling with
        | nil => cases hnumber
        | cons c spelling => exact ⟨c, spelling ++ rest, rfl⟩
      have hblank := hnumbers rfl
      rw [htext] at hblank ⊢
      exact endsNumber_of_isBlank (by simpa using hblank)
    · exact endsNumber_of_isName hname
    · exact endsNumber_of_head (by rintro _ ⟨⟩; decide)
    · exact endsNumber_of_head (by rintro _ ⟨⟩; decide)
    · exact endsNumber_of_head (by rintro _ ⟨⟩; cases o <;> decide)

/-! ## Behind a function name -/

/-- A function name that is longer than another has an `h` in addition. -/
theorem eq_concat_of_prefix_name (f g : MathFunction) (h : f.name.toList <+: g.name.toList) :
    g = f ∨ g.name.toList = f.name.toList ++ ['h'] := by
  have hall : ∀ f ∈ MathFunction.all, ∀ g ∈ MathFunction.all, f.name.toList <+: g.name.toList →
      g = f ∨ g.name.toList = f.name.toList ++ ['h'] := by decide +kernel
  exact hall f (by cases f <;> decide) g (by cases g <;> decide) h

/-- Nothing that is written begins with an `h`. -/
theorem toLower_ne_h_of_begins {c : Char} (h : Begins tokens (c :: rest)) (hc : c.isAlpha) :
    c.toLower ≠ 'h' := by
  generalize htext : c :: rest = text at h
  cases h with
  | nothing => cases htext
  | blank hblank =>
    cases htext
    exact absurd hc (not_isAlpha_of_isBlank hblank)
  | @token token tokens spelling rest hspells =>
    rcases ofSpelling?_cases hspells with
      ⟨hnumber, -⟩ | ⟨hname, -⟩ | ⟨rfl, -⟩ | ⟨rfl, -⟩ | ⟨o, rfl, -⟩
    · cases spelling with
      | nil => cases hnumber
      | cons d spelling =>
        cases htext
        exact absurd hc (not_isAlpha_of_isDigit (isDigit_of_isNumberText hnumber))
    · obtain ⟨f, hname⟩ := hname.exists_name
      cases spelling with
      | nil => exact absurd hname (name_facts f).1
      | cons d spelling =>
        cases htext
        intro hh
        rw [List.map_cons, hh] at hname
        have hhead : f.name.toList.head? ≠ some 'h' := by cases f <;> decide
        exact hhead (by rw [hname]; rfl)
    · cases htext
      exact absurd hc (by decide)
    · cases htext
      exact absurd hc (by decide)
    · cases htext
      exact absurd hc (by cases o <;> decide)

/-- A function name ends before everything that can be written. -/
theorem isLongest_name_of_begins (hname : IsName spelling) (h : Begins tokens rest) :
    IsLongest IsName spelling rest where
  holds := hname
  longest more hmore hlonger := by
    cases more with
    | nil => rfl
    | cons c more =>
      obtain ⟨behind, rfl⟩ := hmore
      obtain ⟨f, hf⟩ := hname.exists_name
      obtain ⟨g, hg⟩ := hlonger.exists_name
      rw [List.map_append, List.map_cons, ← hf] at hg
      have hc : c.isAlpha := hlonger.isAlpha c (by simp)
      have hprefix : f.name.toList <+: g.name.toList := hg ▸ List.prefix_append _ _
      rcases eq_concat_of_prefix_name f g hprefix with rfl | hlong
      · simp at hg
      · rw [hlong, List.append_cancel_left_eq] at hg
        obtain ⟨hh, -⟩ := List.cons.inj hg
        exact absurd hh.symm (toLower_ne_h_of_begins h hc)

/-! ## Whole texts -/

theorem isFirst_of_begins (htoken : token.IsLexical) (hspelling : token.IsWrittenAs spelling)
    (h : Begins tokens rest)
    (hnumbers : token.isNumber → tokens.head?.any isNumber → rest.head?.any Token.isBlank) :
    IsFirst token spelling rest := by
  have hspells := spells_of_isWrittenAs htoken hspelling
  rcases ofSpelling?_cases hspells with
    ⟨hnumber, rfl⟩ | ⟨hname, rfl⟩ | ⟨rfl, rfl⟩ | ⟨rfl, rfl⟩ | ⟨o, rfl, rfl⟩
  · exact isFirst_number ((endsNumber_of_begins h (hnumbers rfl)).isLongest hnumber)
  · exact isFirst_function (isLongest_name_of_begins hname h)
  · exact isFirst_opening
  · exact isFirst_closing
  · exact isFirst_operator o

/-- **A written text has the tokens that it writes.** -/
theorem munch_of_writes {text : List Char} (h : Writes tokens text)
    (htokens : ∀ token ∈ tokens, token.IsLexical) (position : Nat) :
    munch position text = .ok tokens := by
  induction h generalizing position with
  | @nil blanks hblanks =>
    have hmunch := munch_blanks (List.all_eq_true.mp hblanks) position []
    rwa [List.append_nil, munch_nil] at hmunch
  | @cons token tokens blanks spelling rest hblanks hspelling hrest hnumbers ih =>
    obtain ⟨htoken, htokens⟩ := List.forall_mem_cons.mp htokens
    have hfirst := isFirst_of_begins htoken hspelling (begins_of_writes htokens hrest) hnumbers
    rw [List.append_assoc, munch_blanks (List.all_eq_true.mp hblanks), munch_token hfirst,
      ih htokens]
    rfl

end Token

theorem tokenize_of_writes {text : String} {tokens : List Token}
    (h : Writes tokens text.toList) (htokens : ∀ token ∈ tokens, token.IsLexical) :
    tokenize text = .ok tokens :=
  (tokenize_eq text).trans (Token.munch_of_writes h htokens 0)

/-- **Tokenizing undoes writing**: a text has the given tokens if and only if each of them can be
spelled and the text writes them, in any case of letters and with any blanks that keep numbers
apart. -/
theorem tokenize_eq_ok_iff_writes (text : String) (tokens : List Token) :
    tokenize text = .ok tokens ↔
      (∀ token ∈ tokens, token.IsLexical) ∧ Writes tokens text.toList := by
  rw [tokenize_eq]
  constructor
  · intro h
    exact ⟨Token.isLexical_of_munch h, Token.writes_of_munch h⟩
  · rintro ⟨htokens, hwrites⟩
    exact Token.munch_of_writes hwrites htokens 0

/-- The `E` of a function name is no exponent, and `tan` before `cos` is not `tanh`. -/
example : tokenize "2Exp1e-3-tanCOS4" =
    .ok [.number "2", .function "exp", .number "1e-3", .operator '-', .function "tan",
      .function "cos", .number "4"] := by
  decide +kernel

end Calculator
