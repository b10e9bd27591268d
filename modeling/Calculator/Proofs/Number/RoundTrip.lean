import Calculator.Proofs.Number.Text

/-!
# Shown numbers read back

The digits that a finite double is shown with, without its sign, are a literal for the double
without its sign. So a finite double is lost neither by showing it nor by reading what was shown.

The sign is not part of a literal in an expression, so the two are treated apart: a double is what
its magnitude says, or the negative of that.
-/

namespace Calculator

open Token (areDigits areDigits_iff)

/-! ## Reading digits -/

namespace Decimal

variable {d : Decimal} {whole fraction : List Char} {b : Nat}

/-- The decimal that digits with a point among them write. -/
theorem decimal?_withPoint (hwhole : areDigits whole) (hfraction : ∀ c ∈ fraction, c.isDigit) :
    Number.decimal? (withPoint whole fraction)
      = some ⟨Nat.ofDigitChars 10 (whole ++ fraction) 0, -fraction.length⟩ := by
  have hne := (areDigits_iff.mp hwhole).1
  have hpoint : ∀ c ∈ (if fraction = [] then [] else '.' :: fraction).head?, ¬ c.isDigit := by
    split
    · rintro _ ⟨⟩
    · rintro _ ⟨⟩
      decide
  rw [Number.decimal?, withPoint, List.span_eq_takeWhile_dropWhile,
    Token.takeWhile_append_rest hwhole hpoint, Token.dropWhile_append_rest hwhole hpoint]
  dsimp only
  split
  · next hnothing => simp [hnothing, Number.splitFraction, Number.exponent?, hne]
  · next hsome =>
    have hbehind := areDigits_iff.mpr ⟨hsome, hfraction⟩
    have hend : ∀ c ∈ ([] : List Char).head?, ¬ c.isDigit := by rintro _ ⟨⟩
    have htake := Token.takeWhile_append_rest hbehind hend
    have hdrop := Token.dropWhile_append_rest hbehind hend
    rw [List.append_nil] at htake hdrop
    simp [Number.splitFraction, Number.exponent?, hne, htake, hdrop,
      List.span_eq_takeWhile_dropWhile]

/-- Positional digits are read as a decimal of the same magnitude. -/
theorem magnitude?_positional (d : Decimal) :
    Number.magnitude? d.positional = some d.magnitude := by
  obtain ⟨whole, fraction, hshown⟩ := d.exists_isShownAs
  have hread := decimal?_withPoint hshown.areDigits_whole hshown.isDigit_fraction
  rw [hshown.positional_eq, Number.magnitude?, hread]
  exact congrArg some (magnitude_congr hshown.value_eq)

end Decimal

/-! ## Sign and magnitude -/

namespace Number

open Float.Model (Format UnpackedFloat)
open Float.Model.UnpackedFloat

variable {x y : Float} {s : Sign} {e : BitVec 11} {m : BitVec 52}

/-- Doubles with the same parts are the same. -/
theorem HasParts.unique (hx : HasParts x s e m) (hy : HasParts y s e m) : x = y :=
  hx.eq_pack.trans hy.eq_pack.symm

theorem HasParts.isNegative_iff (hx : HasParts x s e m) : isNegative x ↔ s = .negative := by
  have he : e.toNat < 2048 := e.isLt
  have hm : m.toNat < 2 ^ 52 := m.isLt
  have hsign : signBit = 2 ^ 63 := rfl
  rw [isNegative, decide_eq_true_eq, hx.toNat_toBits, hsign]
  cases s with
  | positive =>
    have hbit : Sign.positive.toBitVec.toNat = 0 := rfl
    rw [hbit]
    exact iff_of_false (by omega) (by rintro ⟨⟩)
  | negative =>
    have hbit : Sign.negative.toBitVec.toNat = 1 := rfl
    rw [hbit]
    exact iff_of_true (by omega) rfl

/-- Reading a magnitude gives the parts of the double without its sign. -/
theorem HasParts.ofMagnitude (hx : HasParts x s e m) :
    HasParts (ofMagnitude false (magnitude x)) .positive e m := by
  have he : e.toNat < 2048 := e.isLt
  have hm : m.toNat < 2 ^ 52 := m.isLt
  have hbits : (UInt64.ofNat (magnitude x)).toBitVec
      = packComponents Format.binary64 .positive e m := by
    have hnat : (UInt64.ofNat (magnitude x)).toBitVec.toNat = magnitude x % 2 ^ 64 := rfl
    have hbit : Sign.positive.toBitVec.toNat = 0 := rfl
    refine BitVec.eq_of_toNat_eq ?_
    rw [hnat, toNat_packComponents, hbit, hx.magnitude_eq]
    omega
  have hparts := hasParts_pack .positive hx.1 m
  rwa [← unpack_packComponents .positive hx.1, ← hbits] at hparts

theorem neg_neg (hx : x.isFinite) : -(-x) = x := by
  obtain ⟨s, e, m, hx⟩ := exists_hasParts hx
  have hs : -(-s) = s := by cases s <;> rfl
  exact (hs ▸ hx.neg.neg).unique hx

/-- The double without its sign. -/
theorem ofMagnitude_magnitude (hx : x.isFinite) :
    ofMagnitude false (magnitude x) = if isNegative x then -x else x := by
  obtain ⟨s, e, m, hx⟩ := exists_hasParts hx
  cases s with
  | positive =>
    rw [if_neg (mt hx.isNegative_iff.mp (by rintro ⟨⟩))]
    exact hx.ofMagnitude.unique hx
  | negative =>
    rw [if_pos (hx.isNegative_iff.mpr rfl)]
    exact hx.ofMagnitude.unique hx.neg

/-- **The digits of a finite double are a literal for it**, but for its sign. -/
theorem read?_digits (hx : x.isFinite) :
    read? (String.ofList (digits x)) = some (if isNegative x then -x else x) := by
  rw [read?, String.toList_ofList, Token.splitSign_of_isNumberText (isNumberText_digits x)]
  dsimp only
  rw [digits, Decimal.magnitude?_positional,
    Decimal.magnitude_shortest (magnitude_lt_infinite hx)]
  exact congrArg some (ofMagnitude_magnitude hx)

end Number

/-! ## Literals without a sign -/

theorem Decimal.magnitude_le_infinite (d : Decimal) : d.magnitude ≤ Magnitude.infinite := by
  obtain ⟨c, e | e⟩ := d
  · rw [Decimal.magnitude]
    split
    · exact Nat.zero_le _
    · split
      · exact Nat.le_refl _
      · exact Nat.min_le_left ..
  · rw [Decimal.magnitude]
    split
    · exact Nat.zero_le _
    · exact Nat.min_le_left ..

namespace Number

open Float.Model (Format)
open Float.Model.UnpackedFloat

variable {x : Float} {literal : String}

/-- The sign bit is the bit above the magnitude, also where the bits are those of no number. -/
theorem isNegative_ofMagnitude {b : Nat} (hb : b < signBit) :
    isNegative (ofMagnitude false b) = false := by
  have hbits : (ofMagnitude false b).toBits.toBitVec
      = pack Format.binary64 (unpack Format.binary64 (UInt64.ofNat b).toBitVec) := rfl
  have hnat : (UInt64.ofNat b).toBitVec.toNat = b % 2 ^ 64 := rfl
  have hsign : signBit = 2 ^ 63 := rfl
  have hsmall : (ofMagnitude false b).toBits.toNat < signBit := by
    rw [← UInt64.toNat_toBitVec, hbits, pack_unpack]
    split
    · decide
    · rw [hnat]
      omega
  rw [isNegative]
  exact decide_eq_false (Nat.not_le.mpr hsmall)

theorem isNegative_of_read? (hliteral : Token.isNumberText literal.toList)
    (hread : read? literal = some x) : isNegative x = false := by
  obtain ⟨d, hd⟩ := Option.isSome_iff_exists.mp (Token.isSome_decimal? hliteral)
  have hmagnitude : magnitude? literal.toList = some d.magnitude := by rw [magnitude?, hd]
  rw [read?, Token.splitSign_of_isNumberText hliteral] at hread
  dsimp only at hread
  rw [hmagnitude] at hread
  cases hread
  exact isNegative_ofMagnitude (Nat.lt_of_le_of_lt d.magnitude_le_infinite (by decide))

/-- The text of a finite double without a sign is a literal for it. -/
theorem read?_text (hx : x.isFinite) (hsign : isNegative x = false) :
    Token.isNumberText (text x).toList ∧ read? (text x) = some x := by
  have htext : text x = String.ofList (digits x) := by
    rw [text_eq hx, hsign]
    exact String.empty_append
  rw [htext, read?_digits hx, hsign, String.toList_ofList]
  exact ⟨isNumberText_digits x, rfl⟩

end Number

end Calculator
