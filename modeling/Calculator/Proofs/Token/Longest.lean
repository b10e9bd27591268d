import Calculator.Proofs.Token.Literal

/-!
# The longest part of a text

The beginning of a text that is of some kind and is not so any longer with more of the text added.
For a kind that is put together from two others the longest part is the longest of the first kind
and then the longest of the second, if no text of the second kind can begin inside one of the first.

Numbers are such texts. Digits, a fraction and an exponent can be taken one after the other, each as
long as possible, and what comes of it is the longest number. Without the condition this would fail:
a fraction that could go on with the marker of an exponent would have to leave it.
-/

namespace Calculator

variable {α : Type} {p q : List α → Prop} {part part' next rest rest' : List α}

/-- The part is of a kind, and with more of the rest added it is not. -/
structure IsLongest (p : List α → Prop) (part rest : List α) : Prop where
  holds : p part
  longest : ∀ more, more <+: rest → p (part ++ more) → more = []

/-- A text of one kind and then one of another. -/
def Followed (p q : List α → Prop) (text : List α) : Prop :=
  ∃ first second, p first ∧ q second ∧ text = first ++ second

/-- No text of the second kind begins with an item of one of the first. -/
def Apart (p q : List α → Prop) : Prop :=
  ∀ ⦃first second item⦄, p first → item ∈ first → ¬ q (item :: second)

namespace IsLongest

/-- A text of two kinds that begins at a longest part is split where that part ends. -/
theorem split (h : IsLongest p part rest) (hapart : Apart p q) {first second : List α}
    (hfirst : p first) (hsecond : q second) (hnonempty : second ≠ [])
    (hbegins : first ++ second <+: part ++ rest) : first = part ∧ second <+: rest := by
  obtain ⟨behind, hbehind⟩ := hbegins
  rw [List.append_assoc] at hbehind
  rcases List.append_eq_append_iff.mp hbehind with ⟨middle, rfl, hrest⟩ | ⟨middle, rfl, rfl⟩
  · cases middle with
    | nil =>
      rw [List.nil_append] at hrest
      exact ⟨by simp, behind, hrest⟩
    | cons item middle =>
      obtain ⟨item', second, rfl⟩ := List.exists_cons_of_ne_nil hnonempty
      obtain ⟨rfl, -⟩ := List.cons.inj hrest
      exact absurd hsecond (hapart h.holds (by simp))
  · cases h.longest middle (List.prefix_append _ _) hfirst
    exact ⟨by simp, behind, rfl⟩

/-- The longest parts of two kinds, one after the other, are the longest part of both. -/
theorem append (hpart : IsLongest p part (next ++ rest)) (hnext : IsLongest q next rest)
    (hapart : Apart p q) : IsLongest (Followed p q) (part ++ next) rest where
  holds := ⟨part, next, hpart.holds, hnext.holds, rfl⟩
  longest more hmore := by
    rintro ⟨first, second, hfirst, hsecond, heq⟩
    rw [List.append_assoc] at heq
    rcases List.append_eq_append_iff.mp heq with ⟨middle, rfl, hrest⟩ | ⟨middle, rfl, rfl⟩
    · -- The first text goes on into what follows the longest part, so it does not.
      have hmiddle : middle <+: next ++ rest := by
        obtain ⟨behind, rfl⟩ := hmore
        exact ⟨second ++ behind, by rw [← List.append_assoc, ← hrest, List.append_assoc]⟩
      cases hpart.longest middle hmiddle hfirst
      rw [List.nil_append] at hrest
      exact hnext.longest more hmore (hrest ▸ hsecond)
    · cases middle with
      | nil => exact hnext.longest more hmore hsecond
      | cons item middle => exact absurd hsecond (hapart hpart.holds (by simp))

/-- A kind of texts has one longest part at the most. -/
theorem unique (h : IsLongest p part rest) (h' : IsLongest p part' rest')
    (heq : part ++ rest = part' ++ rest') : part = part' ∧ rest = rest' := by
  rcases List.append_eq_append_iff.mp heq with ⟨more, rfl, rfl⟩ | ⟨more, rfl, rfl⟩
  · cases h.longest more (List.prefix_append _ _) h'.holds
    simp
  · cases h'.longest more (List.prefix_append _ _) h.holds
    simp

/-- More text behind leaves the longest part as it is if none of it makes that part longer. -/
theorem append_rest {more : List α} (h : IsLongest p part rest)
    (hmore : ∀ behind, behind <+: more → behind ≠ [] → ¬ p (part ++ (rest ++ behind))) :
    IsLongest p part (rest ++ more) where
  holds := h.holds
  longest added hadded hlonger := by
    obtain ⟨behind, hbehind⟩ := hadded
    rcases List.append_eq_append_iff.mp hbehind with ⟨middle, rfl, -⟩ | ⟨middle, rfl, rfl⟩
    · exact h.longest added (List.prefix_append _ _) hlonger
    · by_contra hne
      by_cases hmiddle : middle = []
      · subst hmiddle
        rw [List.append_nil] at hlonger hne
        exact hne (h.longest rest List.prefix_rfl hlonger)
      · exact hmore middle (List.prefix_append _ _) hmiddle hlonger

theorem mono (h : IsLongest p part rest) (hpart : q part)
    (himp : ∀ more, q (part ++ more) → p (part ++ more)) : IsLongest q part rest where
  holds := hpart
  longest more hmore hq := h.longest more hmore (himp more hq)

end IsLongest

/-! ## Numbers -/

namespace Token

variable {digits signs text rest : List Char}

theorem isLongest_areDigits (hdigits : areDigits digits) (hrest : ∀ c ∈ rest.head?, ¬ c.isDigit) :
    IsLongest (areDigits ·) digits rest where
  holds := hdigits
  longest more hmore h := by
    cases more with
    | nil => rfl
    | cons c more =>
      obtain ⟨behind, rfl⟩ := hmore
      exact absurd ((areDigits_iff.mp h).2 c (by simp)) (hrest c rfl)

private theorem not_areDigits_of_head (hrest : ∀ c ∈ rest.head?, ¬ c.isDigit) (h : text <+: rest) :
    ¬ areDigits text := by
  intro hdigits
  obtain ⟨behind, rfl⟩ := h
  obtain ⟨hne, hall⟩ := areDigits_iff.mp hdigits
  obtain ⟨c, text, rfl⟩ := List.exists_cons_of_ne_nil hne
  exact hrest c rfl (hall c List.mem_cons_self)

/-! ### Fractions -/

theorem isFraction_cons_iff {c : Char} :
    isFraction (c :: text) ↔ c = '.' ∧ areDigits text := by
  simp [isFraction]

theorem isLongest_fraction (h : IsLongest (areDigits ·) digits rest) :
    IsLongest (isFraction ·) ('.' :: digits) rest where
  holds := isFraction_cons_iff.mpr ⟨rfl, h.holds⟩
  longest more hmore hfraction := h.longest more hmore (isFraction_cons_iff.mp hfraction).2

/-- A point without digits behind it begins no fraction. -/
theorem isLongest_noFraction (hrest : ∀ c ∈ rest.head?, ¬ c.isDigit) :
    IsLongest (isFraction ·) [] ('.' :: rest) where
  holds := rfl
  longest more hmore hfraction := by
    cases more with
    | nil => rfl
    | cons c more =>
      have hdigits := (isFraction_cons_iff.mp hfraction).2
      exact absurd hdigits (not_areDigits_of_head hrest (List.cons_prefix_cons.mp hmore).2)

theorem isLongest_noFraction_of_head (hrest : ∀ c ∈ rest.head?, c ≠ '.') :
    IsLongest (isFraction ·) [] rest where
  holds := rfl
  longest more hmore hfraction := by
    cases more with
    | nil => rfl
    | cons c more =>
      obtain ⟨behind, rfl⟩ := hmore
      exact absurd (isFraction_cons_iff.mp hfraction).1 (hrest c rfl)

/-! ### Exponents -/

theorem isExponent_cons_iff {c : Char} :
    isExponent (c :: text) ↔ (c = 'e' ∨ c = 'E') ∧ Followed areSigns (areDigits ·) text := by
  constructor
  · intro h
    refine ⟨head_isExponent h, ?_⟩
    have hdigits : areDigits (Number.splitSign text).2 := by
      rw [isExponent, Bool.and_eq_true] at h
      exact h.2
    rw [Number.splitSign.eq_def] at hdigits
    split at hdigits
    · exact ⟨['-'], _, .inr (.inr rfl), hdigits, rfl⟩
    · exact ⟨['+'], _, .inr (.inl rfl), hdigits, rfl⟩
    · exact ⟨[], _, .inl rfl, hdigits, rfl⟩
  · rintro ⟨hmarker, signs, digits, hsigns, hdigits, rfl⟩
    exact isExponent_cons hmarker hsigns hdigits

theorem isLongest_sign {sign : Char} (hsign : sign = '+' ∨ sign = '-') :
    IsLongest areSigns [sign] rest where
  holds := by
    rcases hsign with rfl | rfl
    · exact .inr (.inl rfl)
    · exact .inr (.inr rfl)
  longest more _ hsigns := by
    rcases hsigns with hsigns | hsigns | hsigns <;> cases hsigns <;> rfl

theorem isLongest_noSign (hrest : ∀ c ∈ rest.head?, ¬ (c = '+' ∨ c = '-')) :
    IsLongest areSigns [] rest where
  holds := .inl rfl
  longest more hmore hsigns := by
    obtain ⟨behind, rfl⟩ := hmore
    rcases hsigns with rfl | rfl | rfl
    · rfl
    · exact absurd (.inl rfl) (hrest '+' rfl)
    · exact absurd (.inr rfl) (hrest '-' rfl)

private theorem apart_areSigns_areDigits : Apart areSigns (areDigits ·) := by
  intro signs digits c hsigns hc hdigits
  have hdigit := (areDigits_iff.mp hdigits).2 c List.mem_cons_self
  rcases hsigns with rfl | rfl | rfl
  · cases hc
  · cases List.mem_singleton.mp hc
    exact absurd hdigit (by decide)
  · cases List.mem_singleton.mp hc
    exact absurd hdigit (by decide)

theorem isLongest_exponent {marker : Char} (hmarker : marker = 'e' ∨ marker = 'E')
    (hsigns : IsLongest areSigns signs (digits ++ rest))
    (hdigits : IsLongest (areDigits ·) digits rest) :
    IsLongest (isExponent ·) (marker :: (signs ++ digits)) rest := by
  have h := hsigns.append hdigits apart_areSigns_areDigits
  refine ⟨isExponent_cons_iff.mpr ⟨hmarker, h.holds⟩, fun more hmore hexponent ↦ ?_⟩
  exact h.longest more hmore (isExponent_cons_iff.mp hexponent).2

/-- An exponent marker without digits behind it begins no exponent. -/
theorem isLongest_noExponent {marker : Char} (hsigns : IsLongest areSigns signs rest)
    (hrest : ∀ c ∈ rest.head?, ¬ c.isDigit) :
    IsLongest (isExponent ·) [] (marker :: (signs ++ rest)) where
  holds := rfl
  longest more hmore hexponent := by
    cases more with
    | nil => rfl
    | cons c more =>
      obtain ⟨-, first, second, hfirst, hsecond, rfl⟩ := isExponent_cons_iff.mp hexponent
      have hbegins := (List.cons_prefix_cons.mp hmore).2
      have hbehind := hsigns.split apart_areSigns_areDigits hfirst hsecond
        (areDigits_iff.mp hsecond).1 hbegins
      exact absurd hsecond (not_areDigits_of_head hrest hbehind.2)

theorem isLongest_noExponent_of_head (hrest : ∀ c ∈ rest.head?, ¬ (c = 'e' ∨ c = 'E')) :
    IsLongest (isExponent ·) [] rest where
  holds := rfl
  longest more hmore hexponent := by
    cases more with
    | nil => rfl
    | cons c more =>
      obtain ⟨behind, rfl⟩ := hmore
      exact absurd (isExponent_cons_iff.mp hexponent).1 (hrest c rfl)

/-! ### Whole numbers, fractions and exponents together -/

theorem isNumberText_iff :
    isNumberText text ↔ Followed (areDigits ·) (Followed (isFraction ·) (isExponent ·)) text := by
  constructor
  · intro h
    rw [isNumberText, Bool.and_eq_true] at h
    obtain ⟨hwhole, htail⟩ := h
    refine ⟨_, _, hwhole, ?_, (List.takeWhile_append_dropWhile ..).symm⟩
    split at htail
    · next fraction hrest =>
      rw [Bool.and_eq_true] at htail
      refine ⟨'.' :: fraction.takeWhile Char.isDigit, fraction.dropWhile Char.isDigit,
        isFraction_cons_iff.mpr ⟨rfl, htail.1⟩, htail.2, ?_⟩
      rw [hrest, List.cons_append, List.takeWhile_append_dropWhile]
    · exact ⟨[], _, rfl, htail, rfl⟩
  · rintro ⟨whole, tail, hwhole, ⟨fraction, exponent, hfraction, hexponent, rfl⟩, rfl⟩
    exact isNumberText_append hwhole hfraction hexponent

private theorem apart_isFraction_isExponent : Apart (isFraction ·) (isExponent ·) := by
  intro fraction exponent c hfraction hc hexponent
  cases fraction with
  | nil => cases hc
  | cons point digits =>
    obtain ⟨rfl, hdigits⟩ := isFraction_cons_iff.mp hfraction
    have hmarker := (isExponent_cons_iff.mp hexponent).1
    rcases List.mem_cons.mp hc with rfl | hc
    · exact absurd hmarker (by decide)
    · have hdigit := (areDigits_iff.mp hdigits).2 c hc
      rcases hmarker with rfl | rfl <;> exact absurd hdigit (by decide)

private theorem apart_areDigits_followed :
    Apart (areDigits ·) (Followed (isFraction ·) (isExponent ·)) := by
  rintro digits tail c hdigits hc ⟨fraction, exponent, hfraction, hexponent, heq⟩
  have hdigit := (areDigits_iff.mp hdigits).2 c hc
  cases fraction with
  | nil =>
    cases heq
    rcases head_isExponent hexponent with rfl | rfl <;> exact absurd hdigit (by decide)
  | cons point fraction =>
    cases heq
    cases (isFraction_cons_iff.mp hfraction).1
    exact absurd hdigit (by decide)

/-- **The longest number** is digits, a fraction and an exponent, each as long as possible. -/
theorem isLongest_isNumberText {fraction exponent : List Char}
    (hdigits : IsLongest (areDigits ·) digits (fraction ++ (exponent ++ rest)))
    (hfraction : IsLongest (isFraction ·) fraction (exponent ++ rest))
    (hexponent : IsLongest (isExponent ·) exponent rest) :
    IsLongest (isNumberText ·) (digits ++ (fraction ++ exponent)) rest := by
  have htail := hfraction.append hexponent apart_isFraction_isExponent
  rw [← List.append_assoc] at hdigits
  have h := hdigits.append htail apart_areDigits_followed
  exact h.mono (isNumberText_iff.mpr h.holds) fun _ ↦ isNumberText_iff.mp

end Token

end Calculator
