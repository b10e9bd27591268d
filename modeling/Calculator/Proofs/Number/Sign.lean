import Calculator.Computation
import Mathlib

/-!
# Signs of doubles

Multiplying a finite double by plus or minus one changes at most its sign, exactly, and a sign moves
freely between the factors of a product and from an operand of a difference into its operator.

## Parts

A finite double is a sign, an exponent field and a mantissa field. Unpacking keeps the sign apart
from the other two, so a law about signs is a law about unpacked doubles once packing and unpacking
are known to undo each other on parts. Rounding matters in one place only: a product by one has
fifty-two zeros behind its mantissa, and all of them are shifted out.
-/

namespace Calculator

namespace Number

open Float.Model (Format UnpackedFloat)
open Float.Model.UnpackedFloat

/-! ## Packing and unpacking -/

/-- The unpacked double with the given parts, if it is finite. -/
def ofParts (s : Sign) (e : BitVec 11) (m : BitVec 52) : UnpackedFloat :=
  if e = 0#11 then
    if h : m = 0#52 then .zero s
    else .finite s m.toNat (-1074) (Nat.pos_of_ne_zero fun h0 ↦ h (BitVec.eq_of_toNat_eq h0))
  else .finite s (2 ^ 52 + m.toNat) (e.toNat - 1075) (by omega)

private theorem toNat_append_one (m : BitVec 52) : (1#1 ++ m).toNat = 2 ^ 52 + m.toNat := by
  rw [BitVec.toNat_append, ← Nat.shiftLeft_add_eq_or_of_lt m.isLt]
  rfl

theorem unpack_packComponents (s : Sign) {e : BitVec 11} (he : e ≠ -1#11) (m : BitVec 52) :
    unpack Format.binary64 (packComponents Format.binary64 s e m) = ofParts s e m := by
  have hbias : ((Format.binary64.exponentBias : Nat) : Int)
      + (Format.binary64.mantissaBitsWithoutImplicit : Nat) = 1075 := by decide
  simp only [unpack, unpackMantissa_packComponents, unpackExponent_packComponents,
    unpackSign_packComponents, Sign.ofBitVec_toBitVec, hbias, ofParts]
  rw [if_neg he]
  by_cases hzero : e = 0#11
  · rw [if_pos hzero, if_pos hzero]
    by_cases hm : m = 0#52
    · rw [dif_pos hm, dif_pos hm]
    · rw [dif_neg hm, dif_neg hm]
      subst hzero
      rfl
  · rw [if_neg hzero, if_neg hzero]
    simp only [toNat_append_one]

private theorem pack_ofParts (s : Sign) {e : BitVec 11} (he : e ≠ -1#11) (m : BitVec 52) :
    pack Format.binary64 (ofParts s e m) = packComponents Format.binary64 s e m := by
  have hnumber : isNaNBits (packComponents Format.binary64 s e m) = false := by
    rw [isNaNBits, unpackExponent_packComponents]
    exact decide_eq_false fun h ↦ he h.1
  rw [← unpack_packComponents s he, pack_unpack, hnumber]
  rfl

/-! ## Rounding what needs no rounding -/

/-- The exponent is the one that a mantissa has in the format. -/
def IsCanonical (m : Nat) (e : Int) : Prop :=
  Format.binary64.targetExponent (Float.Model.totalExponent m e) = e

theorem targetExponent_eq (t : Int) : Format.binary64.targetExponent t = max (t - 53) (-1074) :=
  rfl

/-- Zeros behind a mantissa are shifted out without a trace. -/
theorem shiftRight_exact (m k : Nat) :
    (⟨m * 2 ^ k, false, false⟩ : ExtendedMantissa) >>> k = ⟨m, false, false⟩ := by
  -- The last shift is taken off first, since the amount is what shifting recurses on.
  induction k generalizing m with
  | zero =>
    rw [Nat.pow_zero, Nat.mul_one]
    rfl
  | succ k ih =>
    have hsplit : m * 2 ^ (k + 1) = m * 2 * 2 ^ k := by
      rw [Nat.pow_succ, Nat.mul_assoc, Nat.mul_comm 2]
    have hshift : (⟨m * 2 ^ (k + 1), false, false⟩ : ExtendedMantissa) >>> (k + 1)
        = ((⟨m * 2 ^ (k + 1), false, false⟩ : ExtendedMantissa) >>> k).shiftRightOne := rfl
    rw [hshift, hsplit, ih]
    simp [ExtendedMantissa.shiftRightOne]

theorem log2_mul_two_pow {m : Nat} (hm : m ≠ 0) (k : Nat) : (m * 2 ^ k).log2 = m.log2 + k := by
  induction k with
  | zero => rw [Nat.pow_zero, Nat.mul_one, Nat.add_zero]
  | succ k ih =>
    have hne : m * 2 ^ k ≠ 0 := Nat.mul_ne_zero hm (Nat.ne_of_gt (Nat.two_pow_pos k))
    rw [Nat.pow_succ, ← Nat.mul_assoc, Nat.mul_comm _ 2, Nat.log2_two_mul hne, ih, Nat.add_assoc]

private theorem shiftToTargetExponent_exact {m : Nat} {e : Int} (hm : m ≠ 0) (he : IsCanonical m e)
    (k : Nat) :
    shiftToTargetExponent Format.binary64 (m * 2 ^ k) (e - k) .exact = (⟨m, false, false⟩, e) := by
  have htotal : Float.Model.totalExponent (m * 2 ^ k) (e - k) = Float.Model.totalExponent m e := by
    rw [Float.Model.totalExponent, Float.Model.totalExponent, log2_mul_two_pow hm]
    omega
  have hamount : (e - (e - k)).toNat = k := by omega
  rw [shiftToTargetExponent, htotal, he]
  simp only [shiftToExponent, hamount, ExtendedMantissa.ofMantissaAndAccuracy, shiftRight_exact]
  congr
  omega

private theorem roundWithAccuracy_exact (s : Sign) {m : Nat} {e : Int} (hm : 0 < m)
    (he : IsCanonical m e) (k : Nat) :
    roundWithAccuracy Format.binary64 s (m * 2 ^ k) (e - k) .exact = .finite s m e hm := by
  -- Rounding shifts twice, in case rounding up has made a bit more; the second shift is by nothing.
  have hfirst := shiftToTargetExponent_exact (Nat.ne_of_gt hm) he k
  have hsecond := shiftToTargetExponent_exact (Nat.ne_of_gt hm) he 0
  have hrounded : (⟨m, false, false⟩ : ExtendedMantissa).roundedMantissa = m := rfl
  simp only [Nat.pow_zero, Nat.mul_one, Int.natCast_zero, Int.sub_zero] at hsecond
  simp only [roundWithAccuracy, hfirst, hrounded, hsecond]
  rw [dif_neg (Nat.ne_of_gt hm)]

/-! ## Products by one -/

/-- The unpacked double one with a sign. -/
def unit (s : Sign) : UnpackedFloat := .finite s (2 ^ 52) (-52) (by decide)

private theorem mul_finite_unit (s t : Sign) {m : Nat} {e : Int} (hm : 0 < m)
    (he : IsCanonical m e) :
    mul Format.binary64 (.finite s m e hm) (unit t) = .finite (s * t) m e hm := by
  have hmul : mul Format.binary64 (.finite s m e hm) (unit t)
      = roundWithAccuracy Format.binary64 (s * t) (m * 2 ^ 52) (e + -52) .exact := rfl
  have hround := roundWithAccuracy_exact (s * t) hm he 52
  rw [Int.sub_eq_add_neg] at hround
  exact hmul.trans hround

private theorem mul_unit (s t : Sign) (e : BitVec 11) (m : BitVec 52) :
    mul Format.binary64 (ofParts s e m) (unit t) = ofParts (s * t) e m := by
  have hlt : m.toNat < 2 ^ 52 := m.isLt
  rw [ofParts, ofParts]
  by_cases hzero : e = 0#11
  · rw [if_pos hzero, if_pos hzero]
    by_cases hm : m = 0#52
    · rw [dif_pos hm, dif_pos hm]
      rfl
    · rw [dif_neg hm, dif_neg hm]
      have hpos : 0 < m.toNat := Nat.pos_of_ne_zero fun h0 ↦ hm (BitVec.eq_of_toNat_eq h0)
      have hlog : m.toNat.log2 < 52 := (Nat.log2_lt (Nat.ne_of_gt hpos)).mpr hlt
      refine mul_finite_unit s t hpos ?_
      rw [IsCanonical, targetExponent_eq, Float.Model.totalExponent]
      omega
  · rw [if_neg hzero, if_neg hzero]
    have hlog : (2 ^ 52 + m.toNat).log2 = 52 := by
      rw [Nat.log2_eq_iff (by omega)]
      omega
    have hfield : 0 < e.toNat := Nat.pos_of_ne_zero fun h0 ↦ hzero (BitVec.eq_of_toNat_eq h0)
    refine mul_finite_unit s t (by omega) ?_
    rw [IsCanonical, targetExponent_eq, Float.Model.totalExponent, hlog]
    omega

/-! ## Signs of unpacked doubles -/

theorem sign_mul_comm (s t : Sign) : s * t = t * s := by
  cases s <;> cases t <;> rfl

private theorem sign_neg_mul (s t : Sign) : -s * t = s * -t := by
  cases s <;> cases t <;> rfl

private theorem unpacked_mul_comm (u v : UnpackedFloat) :
    mul Format.binary64 u v = mul Format.binary64 v u := by
  cases u with
  | finite s m e hm =>
    cases v with
    | finite t n f hn => simp only [mul, sign_mul_comm s t, Nat.mul_comm m n, Int.add_comm e f]
    | _ => simp [mul, sign_mul_comm]
  | _ => cases v <;> simp [mul, sign_mul_comm]

private theorem unpacked_neg_mul (u v : UnpackedFloat) :
    mul Format.binary64 u.neg v = mul Format.binary64 u v.neg := by
  cases u <;> cases v <;> simp [mul, neg, sign_neg_mul]

private theorem sub_apply_neg (t : Sign) (k n : Int) : k - (-t).apply n = k + t.apply n := by
  cases t with
  | negative => exact Int.sub_eq_add_neg
  | positive => exact Int.sub_neg ..

private theorem unpacked_sub_neg (u v : UnpackedFloat) :
    sub Format.binary64 u v.neg = add Format.binary64 u v := by
  cases u with
  | finite s m e hm =>
    cases v with
    | finite t n f hn => simp only [sub, add, neg, sub_apply_neg]
    | infinity t => cases t <;> rfl
    | _ => rfl
  | infinity s =>
    cases v with
    | infinity t => cases s <;> cases t <;> rfl
    | _ => rfl
  | zero s =>
    cases v with
    | zero t => cases s <;> cases t <;> rfl
    | infinity t => cases t <;> rfl
    | finite t n f hn => cases t <;> rfl
    | notANumber => rfl
  | notANumber => rfl

private theorem neg_ofParts (s : Sign) (e : BitVec 11) (m : BitVec 52) :
    (ofParts s e m).neg = ofParts (-s) e m := by
  rw [ofParts, ofParts]
  by_cases hzero : e = 0#11
  · rw [if_pos hzero, if_pos hzero]
    by_cases hm : m = 0#52
    · rw [dif_pos hm, dif_pos hm]
      rfl
    · rw [dif_neg hm, dif_neg hm]
      rfl
  · rw [if_neg hzero, if_neg hzero]
    rfl

/-! ## Doubles -/

/-- The double has the given parts. -/
def HasParts (x : Float) (s : Sign) (e : BitVec 11) (m : BitVec 52) : Prop :=
  e ≠ -1#11 ∧ x.toModel.toBits.toBitVec = packComponents Format.binary64 s e m

variable {x y : Float} {s : Sign} {e : BitVec 11} {m : BitVec 52}

theorem exists_hasParts (hx : x.isFinite) : ∃ s e m, HasParts x s e m := by
  have hparts := packComponents_unpackSign_unpackExponent_unpackMantissa
    (show BitVec Format.binary64.numBits from x.toModel.toBits.toBitVec)
  refine ⟨_, _, _, fun he ↦ ?_, hparts.symm⟩
  have hfinite : (unpack Format.binary64 x.toModel.toBits.toBitVec).isFinite := hx
  rw [unpack] at hfinite
  simp only [] at hfinite
  rw [if_pos he] at hfinite
  split at hfinite
  · cases hfinite
  · cases hfinite

theorem HasParts.unpack_eq (hx : HasParts x s e m) : x.toModel.unpack = ofParts s e m := by
  rw [Float.Model.unpack, hx.2, unpack_packComponents s hx.1]

/-- A double is determined by its parts. -/
theorem HasParts.eq_pack (hx : HasParts x s e m) :
    x = .ofModel (Float.Model.pack (ofParts s e m)) := by
  have hbits : x.toModel.toBits = UInt64.ofBitVec (pack Format.binary64 (ofParts s e m)) := by
    rw [pack_ofParts s hx.1, ← hx.2]
  obtain ⟨⟨bits, hvalid⟩⟩ := x
  dsimp only at hbits
  subst hbits
  rfl

theorem hasParts_pack (s : Sign) (he : e ≠ -1#11) (m : BitVec 52) :
    HasParts (.ofModel (Float.Model.pack (ofParts s e m))) s e m :=
  ⟨he, pack_ofParts s he m⟩

theorem HasParts.neg (hx : HasParts x s e m) : HasParts (-x) (-s) e m := by
  have hneg : -x = .ofModel (Float.Model.pack x.toModel.unpack.neg) := rfl
  rw [hneg, hx.unpack_eq, neg_ofParts]
  exact hasParts_pack (-s) hx.1 m

private theorem hasParts_one : HasParts 1.0 .positive 1023#11 0#52 := by
  refine ⟨by decide, by decide +kernel⟩

private theorem unpack_one : (1.0 : Float).toModel.unpack = unit .positive := hasParts_one.unpack_eq

private theorem unpack_neg_one : (-1.0 : Float).toModel.unpack = unit .negative :=
  hasParts_one.neg.unpack_eq

private theorem unpack_neg (hx : x.isFinite) : (-x).toModel.unpack = x.toModel.unpack.neg := by
  obtain ⟨s, e, m, hx⟩ := exists_hasParts hx
  rw [hx.neg.unpack_eq, hx.unpack_eq, neg_ofParts]

theorem mul_one (hx : x.isFinite) : x * 1.0 = x := by
  obtain ⟨s, e, m, hx⟩ := exists_hasParts hx
  have hs : s * .positive = s := by cases s <;> rfl
  have hmul : x * 1.0 = .ofModel (Float.Model.pack
      (mul Format.binary64 x.toModel.unpack (1.0 : Float).toModel.unpack)) := rfl
  rw [hmul, hx.unpack_eq, unpack_one, mul_unit, hs]
  exact hx.eq_pack.symm

theorem mul_neg_one (hx : x.isFinite) : x * -1.0 = -x := by
  obtain ⟨s, e, m, hx⟩ := exists_hasParts hx
  have hs : s * .negative = -s := by cases s <;> rfl
  have hmul : x * -1.0 = .ofModel (Float.Model.pack
      (mul Format.binary64 x.toModel.unpack (-1.0 : Float).toModel.unpack)) := rfl
  rw [hmul, hx.unpack_eq, unpack_neg_one, mul_unit, hs]
  exact hx.neg.eq_pack.symm

theorem mul_comm (x y : Float) : x * y = y * x :=
  congrArg (fun u ↦ Float.ofModel (Float.Model.pack u))
    (unpacked_mul_comm x.toModel.unpack y.toModel.unpack)

theorem neg_mul (hx : x.isFinite) (hy : y.isFinite) : -x * y = x * -y := by
  have hleft : -x * y = .ofModel (Float.Model.pack
      (mul Format.binary64 (-x).toModel.unpack y.toModel.unpack)) := rfl
  have hright : x * -y = .ofModel (Float.Model.pack
      (mul Format.binary64 x.toModel.unpack (-y).toModel.unpack)) := rfl
  rw [hleft, hright, unpack_neg hx, unpack_neg hy, unpacked_neg_mul]

theorem sub_neg (x : Float) (hy : y.isFinite) : x - -y = x + y := by
  have hsub : x - -y = .ofModel (Float.Model.pack
      (sub Format.binary64 x.toModel.unpack (-y).toModel.unpack)) := rfl
  rw [hsub, unpack_neg hy, unpacked_sub_neg]
  rfl

theorem isFinite_neg (hx : x.isFinite) : (-x).isFinite := by
  obtain ⟨s, e, m, hx⟩ := exists_hasParts hx
  have hfinite : (-x).isFinite = (-x).toModel.unpack.isFinite := rfl
  rw [hfinite, hx.neg.unpack_eq, ofParts]
  split
  · split <;> rfl
  · rfl

end Number

end Calculator
