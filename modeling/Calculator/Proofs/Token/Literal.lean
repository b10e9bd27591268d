import Calculator.Token.Spelling
import Mathlib.Data.List.TakeDrop

/-!
# Number texts are literals

Every text that spells a number token is a number literal, so the lexer hands no number to the
evaluation that cannot be read. The converse fails, since a literal may also begin with a sign or
with a point, and may be a word.
-/

namespace Calculator

namespace Token

variable {text digits rest : List Char}

/-! ## Texts put together -/

theorem areDigits_iff : areDigits text ↔ text ≠ [] ∧ ∀ c ∈ text, c.isDigit := by
  rw [areDigits, Bool.and_eq_true, List.all_eq_true]
  cases text <;> simp

theorem takeWhile_append_rest (hdigits : areDigits digits) (hrest : ∀ c ∈ rest.head?, ¬ c.isDigit) :
    (digits ++ rest).takeWhile Char.isDigit = digits := by
  rw [List.takeWhile_append_of_pos (areDigits_iff.mp hdigits).2]
  cases rest with
  | nil => rw [List.takeWhile_nil, List.append_nil]
  | cons c rest => rw [List.takeWhile_cons_of_neg (hrest c rfl), List.append_nil]

theorem dropWhile_append_rest (hdigits : areDigits digits) (hrest : ∀ c ∈ rest.head?, ¬ c.isDigit) :
    (digits ++ rest).dropWhile Char.isDigit = rest := by
  rw [List.dropWhile_append_of_pos (areDigits_iff.mp hdigits).2]
  cases rest with
  | nil => rfl
  | cons c rest => rw [List.dropWhile_cons_of_neg (hrest c rfl)]

/-- Nothing, or a point with digits behind it. -/
def isFraction : List Char → Bool
  | [] => true
  | point :: digits => point = '.' && areDigits digits

theorem splitSign_cons {c : Char} (hc : c.isDigit) (text : List Char) :
    Number.splitSign (c :: text) = (false, c :: text) := by
  rw [Number.splitSign]
  · rintro rest ⟨⟩
    exact absurd hc (by decide)
  · rintro rest ⟨⟩
    exact absurd hc (by decide)

/-- At most one sign. -/
def areSigns (signs : List Char) : Prop := signs = [] ∨ signs = ['+'] ∨ signs = ['-']

theorem isExponent_cons {marker : Char} {signs : List Char} (hmarker : marker = 'e' ∨ marker = 'E')
    (hsigns : areSigns signs) (hdigits : areDigits digits) :
    isExponent (marker :: (signs ++ digits)) := by
  have hsplit : (Number.splitSign (signs ++ digits)).2 = digits := by
    rcases hsigns with rfl | rfl | rfl
    · cases digits with
      | nil => rfl
      | cons c digits =>
        have hc := (areDigits_iff.mp hdigits).2 c List.mem_cons_self
        rw [List.nil_append, splitSign_cons hc]
    · rfl
    · rfl
  simp only [isExponent, hsplit, hdigits, Bool.and_true, Bool.or_eq_true, decide_eq_true_eq]
  exact hmarker

theorem head_isExponent {c : Char} (h : isExponent (c :: text)) : c = 'e' ∨ c = 'E' := by
  simp only [isExponent, Bool.and_eq_true, Bool.or_eq_true, decide_eq_true_eq] at h
  exact h.1

theorem isNumberText_append {whole fraction exponent : List Char} (hwhole : areDigits whole)
    (hfraction : isFraction fraction) (hexponent : isExponent exponent) :
    isNumberText (whole ++ (fraction ++ exponent)) := by
  -- No digit comes behind the digits, so taking digits stops where the parts meet.
  have hexponentHead : ∀ c ∈ exponent.head?, ¬ c.isDigit := by
    intro c hc
    cases exponent with
    | nil => cases hc
    | cons c exponent =>
      cases hc
      rcases head_isExponent hexponent with rfl | rfl <;> decide
  cases fraction with
  | nil =>
    rw [List.nil_append, isNumberText, takeWhile_append_rest hwhole hexponentHead,
      dropWhile_append_rest hwhole hexponentHead, hwhole]
    cases exponent with
    | nil => rfl
    | cons c exponent => rcases head_isExponent hexponent with rfl | rfl <;> exact hexponent
  | cons point digits =>
    simp only [isFraction, Bool.and_eq_true, decide_eq_true_eq] at hfraction
    obtain ⟨rfl, hdigits⟩ := hfraction
    have hpoint : ∀ c ∈ ('.' :: digits ++ exponent).head?, ¬ c.isDigit := by
      rintro _ ⟨⟩
      decide
    rw [isNumberText, takeWhile_append_rest hwhole hpoint, dropWhile_append_rest hwhole hpoint,
      hwhole]
    simp [takeWhile_append_rest hdigits hexponentHead, dropWhile_append_rest hdigits hexponentHead,
      hdigits, hexponent]

/-! ## Reading -/

theorem isSome_exponent? (h : isExponent text) : (Number.exponent? text).isSome := by
  cases text with
  | nil => rfl
  | cons marker rest =>
    simp only [isExponent, Bool.and_eq_true, Bool.or_eq_true, decide_eq_true_eq] at h
    obtain ⟨hmarker, hdigits⟩ := h
    have hall := areDigits_iff.mp hdigits
    have hall' : (Number.splitSign rest).2.all Char.isDigit := List.all_eq_true.mpr hall.2
    simp only [Number.exponent?, hmarker, hall.1, hall', ne_eq, not_false_eq_true, and_self,
      if_true, Option.isSome_some]

theorem isSome_decimal? (h : isNumberText text) : (Number.decimal? text).isSome := by
  rw [isNumberText, Bool.and_eq_true] at h
  obtain ⟨hwhole, hrest⟩ := h
  have hne := (areDigits_iff.mp hwhole).1
  rw [Number.decimal?, List.span_eq_takeWhile_dropWhile]
  generalize text.dropWhile Char.isDigit = rest at hrest
  dsimp only at hrest ⊢
  split at hrest
  · next fraction =>
    rw [Bool.and_eq_true] at hrest
    simp only [Number.splitFraction, List.span_eq_takeWhile_dropWhile, hne, false_and, if_false,
      Option.isSome_map]
    exact isSome_exponent? hrest.2
  · next hpoint =>
    have hsplit : Number.splitFraction rest = ([], rest) := by
      rw [Number.splitFraction]
      exact hpoint
    simp only [hsplit, hne, false_and, if_false, Option.isSome_map]
    exact isSome_exponent? hrest

theorem splitSign_of_isNumberText (h : isNumberText text) :
    Number.splitSign text = (false, text) := by
  rw [isNumberText, Bool.and_eq_true] at h
  cases text with
  | nil => rfl
  | cons c text =>
    by_cases hc : c.isDigit
    · exact splitSign_cons hc text
    · rw [List.takeWhile_cons_of_neg hc] at h
      cases h.1

/-- **A number text is a number literal.** -/
theorem isSome_read? (h : isNumberText text) : (Number.read? (String.ofList text)).isSome := by
  obtain ⟨d, hd⟩ := Option.isSome_iff_exists.mp (isSome_decimal? h)
  rw [Number.read?, String.toList_ofList, splitSign_of_isNumberText h]
  simp [Number.magnitude?, hd]

end Token

end Calculator
