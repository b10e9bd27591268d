import Calculator.Proofs.Number.Nearest
import Calculator.Proofs.Token.Literal

/-!
# The text of a finite number

A finite double is shown as a number that an expression can hold, with a minus sign in front if its
sign bit is set. In particular its text begins with a digit or a sign, as no word does.

## Digits around a point

Positional digits are cut in two by a point or stand as a whole. Read without the point they are one
whole number, and how many of them stand behind it is the power of ten that it is divided by. What
is known of positional digits is said of this form, whether there is a point or not.
-/

namespace Calculator

open Token (areDigits areDigits_iff isNumberText isNumberText_append isFraction isExponent)

/-! ## Positional digits -/

namespace Decimal

private theorem areDigits_toDigits (n : Nat) : areDigits (Nat.toDigits 10 n) :=
  areDigits_iff.mpr ⟨Nat.toDigits_ne_nil, fun _ hc ↦
    Nat.isDigit_of_mem_toDigits (by decide) (by decide) hc⟩

private theorem isDigit_of_mem_replicate {c : Char} {n : Nat} (hc : c ∈ List.replicate n '0') :
    c.isDigit := by
  rw [List.eq_of_mem_replicate hc]
  decide

/-- Digits, and a point with more digits behind it if there are any. -/
def withPoint (whole fraction : List Char) : List Char :=
  whole ++ if fraction = [] then [] else '.' :: fraction

/-- A decimal is shown as some digits before a point and some behind it, which write its value. -/
structure IsShownAs (d : Decimal) (whole fraction : List Char) : Prop where
  areDigits_whole : areDigits whole
  isDigit_fraction : ∀ c ∈ fraction, c.isDigit
  positional_eq : d.positional = withPoint whole fraction
  value_eq :
    value ⟨Nat.ofDigitChars 10 (whole ++ fraction) 0, -fraction.length⟩ = d.value

private theorem ofDigitChars_toDigits (n : Nat) : Nat.ofDigitChars 10 (Nat.toDigits 10 n) 0 = n :=
  Nat.ofDigitChars_toDigits (by decide) (by decide)

private theorem isShownAs_ofNat (c e : Nat) :
    IsShownAs ⟨c, .ofNat e⟩ (Nat.toDigits 10 c ++ List.replicate e '0') [] where
  areDigits_whole := by
    obtain ⟨hne, hdigits⟩ := areDigits_iff.mp (areDigits_toDigits c)
    refine areDigits_iff.mpr ⟨by simp [hne], fun c hc ↦ ?_⟩
    rcases List.mem_append.mp hc with hc | hc
    · exact hdigits c hc
    · exact isDigit_of_mem_replicate hc
  isDigit_fraction := by rintro _ ⟨⟩
  positional_eq := (List.append_nil _).symm
  value_eq := by
    rw [List.append_nil, Nat.ofDigitChars_append, ofDigitChars_toDigits,
      Nat.ofDigitChars_replicate_zero]
    simp [value, mul_comm]

private theorem exists_isShownAs_negSucc (c e : Nat) :
    ∃ whole fraction, IsShownAs ⟨c, .negSucc e⟩ whole fraction := by
  have hpositional : positional ⟨c, .negSucc e⟩ =
      let padded := List.replicate (e + 2 - (Nat.toDigits 10 c).length) '0' ++ Nat.toDigits 10 c
      padded.take (padded.length - (e + 1)) ++ '.' :: padded.drop (padded.length - (e + 1)) := rfl
  -- At least one digit stands before the point, and exactly `e + 1` stand behind it.
  generalize hpadded : List.replicate (e + 2 - (Nat.toDigits 10 c).length) '0'
    ++ Nat.toDigits 10 c = padded at hpositional
  have hlength : e + 2 ≤ padded.length := by
    rw [← hpadded, List.length_append, List.length_replicate]
    omega
  have hall : ∀ c ∈ padded, c.isDigit := by
    intro d hd
    rw [← hpadded] at hd
    rcases List.mem_append.mp hd with hd | hd
    · exact isDigit_of_mem_replicate hd
    · exact (areDigits_iff.mp (areDigits_toDigits c)).2 d hd
  have hvalue : Nat.ofDigitChars 10 padded 0 = c := by
    rw [← hpadded, Nat.ofDigitChars_append, Nat.ofDigitChars_replicate_zero, Nat.mul_zero,
      ofDigitChars_toDigits]
  have hwhole : (padded.take (padded.length - (e + 1))).length = padded.length - (e + 1) := by
    rw [List.length_take]
    omega
  have hbehind : (padded.drop (padded.length - (e + 1))).length = e + 1 := by
    rw [List.length_drop]
    omega
  refine ⟨padded.take (padded.length - (e + 1)), padded.drop (padded.length - (e + 1)), ?_, ?_, ?_,
    ?_⟩
  · exact areDigits_iff.mpr ⟨List.length_pos_iff.mp (by omega),
      fun c hc ↦ hall c (List.mem_of_mem_take hc)⟩
  · exact fun c hc ↦ hall c (List.mem_of_mem_drop hc)
  · rw [hpositional, withPoint, if_neg (List.length_pos_iff.mp (by omega))]
  · rw [List.take_append_drop, hvalue, hbehind]
    rfl

theorem exists_isShownAs (d : Decimal) : ∃ whole fraction, d.IsShownAs whole fraction := by
  obtain ⟨c, e | e⟩ := d
  · exact ⟨_, _, isShownAs_ofNat c e⟩
  · exact exists_isShownAs_negSucc c e

/-- Positional digits are a number without an exponent. -/
theorem isNumberText_positional (d : Decimal) : isNumberText d.positional := by
  obtain ⟨whole, fraction, hshown⟩ := d.exists_isShownAs
  have hexponent : isExponent [] := rfl
  have hpoint : isFraction (if fraction = [] then [] else '.' :: fraction) := by
    split
    · rfl
    · next hne => simpa [isFraction] using areDigits_iff.mpr ⟨hne, hshown.isDigit_fraction⟩
  rw [hshown.positional_eq, withPoint]
  simpa using isNumberText_append hshown.areDigits_whole hpoint hexponent

end Decimal

/-! ## Finite doubles -/

namespace Number

open Float.Model (Format)
open Float.Model.UnpackedFloat

variable {x : Float}

theorem toNat_append {v w : Nat} (a : BitVec v) (b : BitVec w) :
    (a ++ b).toNat = a.toNat * 2 ^ w + b.toNat := by
  rw [BitVec.toNat_append, ← Nat.shiftLeft_add_eq_or_of_lt b.isLt, Nat.shiftLeft_eq]

variable {s : Sign} {e : BitVec 11} {m : BitVec 52}

theorem toNat_packComponents (s : Sign) (e : BitVec 11) (m : BitVec 52) :
    (packComponents Format.binary64 s e m).toNat
      = (s.toBitVec.toNat * 2 ^ 11 + e.toNat) * 2 ^ 52 + m.toNat := by
  have happend : (packComponents Format.binary64 s e m).toNat
      = (s.toBitVec ++ e ++ m : BitVec (1 + 11 + 52)).toNat := rfl
  rw [happend, toNat_append, toNat_append]

theorem HasParts.toNat_toBits (hx : HasParts x s e m) :
    x.toBits.toNat = (s.toBitVec.toNat * 2 ^ 11 + e.toNat) * 2 ^ 52 + m.toNat :=
  (congrArg BitVec.toNat hx.2).trans (toNat_packComponents s e m)

/-- The sign of a double takes no part in its magnitude. -/
theorem HasParts.magnitude_eq (hx : HasParts x s e m) :
    magnitude x = e.toNat * 2 ^ 52 + m.toNat := by
  have he : e.toNat < 2048 := e.isLt
  have hm : m.toNat < 2 ^ 52 := m.isLt
  have hsign : signBit = 2 ^ 63 := rfl
  rw [magnitude, hx.toNat_toBits, hsign]
  omega

/-- The bits below the sign of a finite double are less than those of infinity. -/
theorem magnitude_lt_infinite (hx : x.isFinite) : magnitude x < Magnitude.infinite := by
  obtain ⟨s, e, m, hx⟩ := exists_hasParts hx
  have he : e.toNat < 2047 := by
    have hlt : e.toNat < 2048 := e.isLt
    have hne : e.toNat ≠ 2047 := fun h ↦ hx.1 (BitVec.eq_of_toNat_eq h)
    omega
  have hm : m.toNat < 2 ^ 52 := m.isLt
  have hinfinite : Magnitude.infinite = 2047 * 2 ^ 52 := rfl
  rw [hx.magnitude_eq, hinfinite]
  omega

/-- The digits of a double without its sign. -/
def digits (x : Float) : List Char := (Decimal.shortest (magnitude x)).positional

theorem isNumberText_digits (x : Float) : isNumberText (digits x) :=
  Decimal.isNumberText_positional _

theorem text_eq (hx : x.isFinite) :
    text x = (if isNegative x then "-" else "") ++ String.ofList (digits x) := by
  have hlt := magnitude_lt_infinite hx
  rw [text]
  dsimp only
  rw [if_neg (Nat.not_lt.mpr (Nat.le_of_lt hlt)), if_neg (Nat.ne_of_lt hlt)]
  cases isNegative x
  · exact (String.empty_append).symm
  · rfl

/-- **A finite double is shown as a number**, with a minus sign in front of a negative one. -/
theorem text_of_isFinite (hx : x.isFinite) :
    ∃ digits, isNumberText digits ∧
      text x = (if isNegative x then "-" else "") ++ String.ofList digits :=
  ⟨digits x, isNumberText_digits x, text_eq hx⟩

end Number

end Calculator
