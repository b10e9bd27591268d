import Calculator.Proofs.Token.Yields

/-!
# Texts write their tokens

A text that has tokens is their spellings in order, with nothing but blanks around and between them.
Two numbers never meet: the digit that the second begins with would have gone to the first.
-/

namespace Calculator

namespace Token

variable {token : Token} {tokens : List Token} {text rest : List Char} {literal : String} {c : Char}
  {position : Nat}

/-! ## Spellings -/

theorem isWrittenAs_of_spells (h : ofSpelling? text = some token) : token.IsWrittenAs text := by
  rcases ofSpelling?_cases h with ⟨-, rfl⟩ | ⟨-, rfl⟩ | ⟨rfl, rfl⟩ | ⟨rfl, rfl⟩ | ⟨o, rfl, rfl⟩
  · exact String.toList_ofList.symm
  · exact String.toList_ofList.symm
  · rfl
  · rfl
  · simp [IsWrittenAs, Token.text]

private theorem isNumberText_of_spells (h : ofSpelling? text = some (.number literal)) :
    isNumberText text := by
  rcases ofSpelling?_cases h with ⟨hnumber, -⟩ | ⟨-, ⟨⟩⟩ | ⟨-, ⟨⟩⟩ | ⟨-, ⟨⟩⟩ | ⟨o, -, ⟨⟩⟩
  exact hnumber

theorem areDigits_concat {digits : List Char} (h : areDigits digits) (hc : c.isDigit) :
    areDigits (digits ++ [c]) := by
  have hall := (areDigits_iff.mp h).2
  refine areDigits_iff.mpr ⟨by simp, fun d hd ↦ ?_⟩
  rcases List.mem_append.mp hd with hd | hd
  · exact hall d hd
  · rwa [List.mem_singleton.mp hd]

/-- A digit behind a number makes it longer. -/
private theorem isNumberText_concat (h : isNumberText text) (hc : c.isDigit) :
    isNumberText (text ++ [c]) := by
  obtain ⟨whole, _, hwhole, ⟨fraction, exponent, hfraction, hexponent, rfl⟩, rfl⟩ :=
    isNumberText_iff.mp h
  rw [List.append_assoc, List.append_assoc]
  -- The digit joins the last part of the number that is there.
  cases exponent with
  | cons marker exponent =>
    obtain ⟨hmarker, signs, digits, hsigns, hdigits, rfl⟩ := isExponent_cons_iff.mp hexponent
    rw [List.cons_append, List.append_assoc]
    exact isNumberText_append hwhole hfraction
      (isExponent_cons hmarker hsigns (areDigits_concat hdigits hc))
  | nil =>
    have hexponent : isExponent [] := rfl
    cases fraction with
    | cons point digits =>
      obtain ⟨rfl, hdigits⟩ := isFraction_cons_iff.mp hfraction
      have hfraction := isFraction_cons_iff.mpr ⟨rfl, areDigits_concat hdigits hc⟩
      simpa using isNumberText_append hwhole hfraction hexponent
    | nil => simpa using isNumberText_append (areDigits_concat hwhole hc) hfraction hexponent

/-- Before the first token, a number, there is a blank or its first digit. -/
theorem blank_or_digit_of_munch (h : munch position text = .ok (.number literal :: tokens)) :
    ∀ c ∈ text.head?, Token.isBlank c ∨ c.isDigit := by
  refine munch_induction
    (fun text found ↦ ∀ literal later, found = .number literal :: later →
      ∀ c ∈ text.head?, Token.isBlank c ∨ c.isDigit) ?nil ?blank ?first h literal tokens rfl
  case nil =>
    rintro _ _ ⟨⟩
  case blank =>
    rintro c text found hblank - _ _ - _ ⟨⟩
    exact .inl hblank
  case first =>
    rintro token spelling rest found position hfirst - - literal later ⟨⟩ c hc
    obtain ⟨d, spelling, rfl⟩ :=
      List.exists_cons_of_ne_nil (List.length_pos_iff.mp hfirst.length_pos)
    cases hc
    exact .inr (isDigit_of_isNumberText (isNumberText_of_spells hfirst.spells))

private theorem isBlank_of_adjacent {spelling : List Char} {literal' : String}
    (hfirst : IsFirst (.number literal) spelling rest)
    (hmunch : munch position rest = .ok (.number literal' :: tokens)) :
    rest.head?.any Token.isBlank := by
  cases rest with
  | nil =>
    rw [munch_nil] at hmunch
    cases hmunch
  | cons c rest =>
    rcases blank_or_digit_of_munch hmunch c rfl with hblank | hdigit
    · simpa using hblank
    · have hnumber := isNumberText_concat (isNumberText_of_spells hfirst.spells) hdigit
      have hlonger := hfirst.longest.longest [c] (List.prefix_append [c] rest)
        (by rw [ofSpelling?_of_isNumberText hnumber]; rfl)
      cases hlonger

end Token

/-! ## Whole texts -/

namespace Writes

variable {tokens : List Token} {text : List Char} {c : Char} {position : Nat}

theorem blank (hc : Token.isBlank c) (h : Writes tokens text) : Writes tokens (c :: text) := by
  cases h with
  | nil hblanks => exact .nil (by simp [hc, hblanks])
  | @cons token tokens blanks spelling rest hblanks hspelling hrest hnumbers =>
    have hblanks' : (c :: blanks).all Token.isBlank := by simp [hc, hblanks]
    exact .cons hblanks' hspelling hrest hnumbers

end Writes

namespace Token

variable {tokens : List Token} {text : List Char} {position : Nat}

/-- **A text writes its tokens.** -/
theorem writes_of_munch (h : munch position text = .ok tokens) : Writes tokens text := by
  refine munch_induction (fun text tokens ↦ Writes tokens text) (.nil rfl) .blank ?_ h
  intro token spelling rest tokens position hfirst hmunch hrest
  have hnumbers : token.isNumber → tokens.head?.any isNumber →
      rest.head?.any Token.isBlank := by
    intro htoken htokens
    cases token with
    | number literal =>
      cases tokens with
      | nil => cases htokens
      | cons next tokens =>
        cases next with
        | number literal' => exact isBlank_of_adjacent hfirst hmunch
        | _ => cases htokens
    | _ => cases htoken
  have hblanks : [].all Token.isBlank := rfl
  exact .cons hblanks (isWrittenAs_of_spells hfirst.spells) hrest hnumbers

end Token

end Calculator
