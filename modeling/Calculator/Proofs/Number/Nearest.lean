import Calculator.Number.Shortest
import Calculator.Proofs.Number.Sign

/-!
# The double nearest to a decimal

The magnitude of a decimal depends on its value alone: not on how many zeros stand behind its
coefficient, and not on the bounds that settle the far cases without arithmetic. A value that a
double has is therefore read as that double however it is written, and so is the shortest decimal
of a double.

## One quotient for every decimal

Rounding a quotient does not see a common factor of its terms. So two quotients of the same value
are rounded alike, and the decimal's own quotient can be exchanged for any other one.
-/

namespace Calculator

/-! ## Rounding a quotient -/

theorem roundHalfEven_mul_right (numerator denominator : Nat) {k : Nat} (hk : 0 < k) :
    roundHalfEven (numerator * k) (denominator * k) = roundHalfEven numerator denominator := by
  have htwice : 2 * (numerator % denominator * k) = 2 * (numerator % denominator) * k := by
    rw [Nat.mul_assoc]
  rw [roundHalfEven, Nat.mul_div_mul_right _ _ hk, Nat.mul_mod_mul_right, htwice]
  simp only [Nat.mul_lt_mul_right hk]
  rfl

/-- A whole number is not rounded. -/
theorem roundHalfEven_exact (n : Nat) {denominator : Nat} (hdenominator : 0 < denominator) :
    roundHalfEven (n * denominator) denominator = n := by
  rw [roundHalfEven, Nat.mul_div_cancel _ hdenominator, Nat.mul_mod_left]
  exact if_pos hdenominator

private theorem div_le_roundHalfEven (numerator denominator : Nat) :
    numerator / denominator ≤ roundHalfEven numerator denominator := by
  rw [roundHalfEven]
  split
  · exact Nat.le_refl _
  · split <;> exact Nat.le_add_right ..

namespace Magnitude

variable {p q p' q' b : Nat}

private theorem ofRatio_mul_right (p q : Nat) {k : Nat} (hk : 0 < k) :
    ofRatio (p * k) (q * k) = ofRatio p q := by
  have hunits : (p * k) <<< 1074 = (p <<< 1074) * k := by
    rw [Nat.shiftLeft_eq, Nat.shiftLeft_eq, Nat.mul_right_comm]
  have hscaled : ∀ scale, (q * k) <<< scale = (q <<< scale) * k := fun scale ↦ by
    rw [Nat.shiftLeft_eq, Nat.shiftLeft_eq, Nat.mul_right_comm]
  simp only [ofRatio, hunits, hscaled, Nat.mul_div_mul_right _ _ hk, roundHalfEven_mul_right _ _ hk]

/-- Equal quotients are rounded alike. -/
theorem ofRatio_congr (hq : 0 < q) (hq' : 0 < q') (h : p * q' = p' * q) :
    ofRatio p q = ofRatio p' q' := by
  rw [← ofRatio_mul_right p q hq', h, Nat.mul_comm q, ofRatio_mul_right p' q' hq]

private theorem add_le_log2_div {j k : Nat} (hq : 0 < q) (h : q * 2 ^ j ≤ p) :
    j + k ≤ (p <<< k / q).log2 := by
  have hle : 2 ^ (j + k) ≤ p <<< k / q := by
    rw [Nat.le_div_iff_mul_le hq, Nat.mul_comm, Nat.pow_add, ← Nat.mul_assoc, Nat.shiftLeft_eq]
    exact Nat.mul_le_mul_right _ h
  exact (Nat.le_log2 (Nat.ne_of_gt (Nat.lt_of_lt_of_le (Nat.two_pow_pos _) hle))).mpr hle

/-- Every value from `2 ^ 1024` on is infinite. -/
theorem ofRatio_of_le (hq : 0 < q) (h : q * 2 ^ 1024 ≤ p) : ofRatio p q = infinite := by
  have hlog := add_le_log2_div (k := 1074) hq h
  rw [ofRatio]
  generalize hquotient : p <<< 1074 / q = quotient at hlog
  have hne : quotient ≠ 0 := by
    rintro rfl
    exact absurd hlog (by decide)
  -- The significand has all of its 53 bits, so the next binade begins at the latest above it.
  have hsignificand : 2 ^ 52 ≤ roundHalfEven (p <<< 1074) (q <<< (quotient.log2 - 52)) := by
    refine Nat.le_trans ?_ (div_le_roundHalfEven ..)
    rw [Nat.shiftLeft_eq q, ← Nat.div_div_eq_div_mul, hquotient,
      Nat.le_div_iff_mul_le (Nat.two_pow_pos _), ← Nat.pow_add, Nat.add_sub_cancel' (by omega)]
    exact Nat.log2_self_le hne
  refine Nat.min_eq_left (Nat.le_trans ?_ (Nat.add_le_add_left hsignificand _))
  rw [Nat.shiftLeft_eq, infinite]
  omega

/-- Every value below half of the smallest positive double is zero. -/
theorem ofRatio_of_lt (h : 2 * (p <<< 1074) < q) : ofRatio p q = 0 := by
  have hlt : p <<< 1074 < q := by omega
  have hround : roundHalfEven (p <<< 1074) q = 0 := by
    rw [roundHalfEven, Nat.div_eq_of_lt hlt, Nat.mod_eq_of_lt hlt]
    exact if_pos h
  rw [ofRatio, Nat.div_eq_of_lt hlt]
  exact (congrArg (min infinite) ((Nat.zero_add _).trans hround)).trans (Nat.min_zero _)

/-! ## The magnitude of a double's own value -/

theorem scale_eq (b : Nat) : scale b = b / 2 ^ 52 - 1 :=
  congrArg (· - 1) (Nat.shiftRight_eq_div_pow b 52)

theorem significand_eq (b : Nat) : significand b = b - scale b * 2 ^ 52 :=
  congrArg (b - ·) (Nat.shiftLeft_eq (scale b) 52)

theorem units_eq (b : Nat) : units b = significand b * 2 ^ scale b := Nat.shiftLeft_eq ..

/-- The scale is the least one under which a significand of 53 bits will do. -/
theorem log2_units (b : Nat) : (units b).log2 - 52 = scale b := by
  have hscale := scale_eq b
  have hsignificand := significand_eq b
  rw [units_eq]
  rcases Nat.eq_zero_or_pos (scale b) with hzero | hpos
  · have hsmall : significand b < 2 ^ 53 := by omega
    rw [hzero, Nat.pow_zero, Nat.mul_one]
    rcases Nat.eq_zero_or_pos (significand b) with hnothing | hsome
    · rw [hnothing]
      rfl
    · have hlog := (Nat.log2_lt (Nat.ne_of_gt hsome)).mpr hsmall
      omega
  · have hlog : (significand b).log2 = 52 := by
      rw [Nat.log2_eq_iff (by omega)]
      omega
    rw [Number.log2_mul_two_pow (by omega), hlog]
    omega

/-- **A double's own value is rounded to it**, however it is written as a quotient. -/
theorem ofRatio_eq (hb : b < infinite) (hq : 0 < q) (h : p <<< 1074 = units b * q) :
    ofRatio p q = b := by
  have hscaled : p <<< 1074 = significand b * (q <<< scale b) := by
    rw [h, units_eq, Nat.shiftLeft_eq q, Nat.mul_assoc, Nat.mul_comm (2 ^ scale b)]
  have hpos : 0 < q <<< scale b := by
    rw [Nat.shiftLeft_eq]
    exact Nat.mul_pos hq (Nat.two_pow_pos _)
  have hquotient : p <<< 1074 / q = units b := by rw [h, Nat.mul_div_cancel _ hq]
  have hsum : scale b <<< 52 + significand b = b := by
    have hscale := scale_eq b
    have hsignificand := significand_eq b
    rw [Nat.shiftLeft_eq]
    omega
  rw [ofRatio, hquotient, log2_units, hscaled, roundHalfEven_exact _ hpos, hsum]
  exact Nat.min_eq_right (Nat.le_of_lt hb)

end Magnitude

/-! ## The value of a decimal -/

namespace Decimal

variable {d d' : Decimal} {b : Nat}

/-- The number that a decimal is. -/
def value (d : Decimal) : ℚ := d.coefficient * (10 : ℚ) ^ d.exponent

private theorem tenToThe_pos (e : Nat) : 0 < tenToThe e := Nat.pow_pos (by decide)

private theorem cast_tenToThe (e : Nat) : (tenToThe e : ℚ) = 10 ^ e := Nat.cast_pow 10 e

/-- Powers of ten against powers of two, closely enough to see that `10 ^ 310` is beyond all finite
doubles. -/
theorem two_pow_le_tenToThe {a k e : Nat} (ha : a ≤ 205 * k) (he : 62 * k ≤ e) :
    2 ^ a ≤ tenToThe e :=
  calc 2 ^ a ≤ 2 ^ (205 * k) := Nat.pow_le_pow_right (by decide) ha
    _ = (2 ^ 205) ^ k := Nat.pow_mul 2 205 k
    _ ≤ (10 ^ 62) ^ k := Nat.pow_le_pow_left (by decide) k
    _ = tenToThe (62 * k) := (Nat.pow_mul 10 62 k).symm
    _ ≤ tenToThe e := Nat.pow_le_pow_right (by decide) he

/-- A decimal as small as this is below every positive double, since ten is more than `2 ^ 3`. -/
theorem two_mul_lt_tenToThe {c k e : Nat} (h : c.log2 + k + 2 ≤ 3 * e) :
    2 * (c <<< k) < tenToThe e := by
  have hcoefficient : c < 2 ^ (c.log2 + 1) := Nat.lt_log2_self
  calc 2 * (c <<< k) = c * 2 ^ (k + 1) := by rw [Nat.shiftLeft_eq, Nat.pow_succ]; ring
    _ < 2 ^ (c.log2 + 1) * 2 ^ (k + 1) := Nat.mul_lt_mul_of_pos_right hcoefficient (by positivity)
    _ = 2 ^ (c.log2 + k + 2) := by rw [← Nat.pow_add]; congr 1; omega
    _ ≤ 2 ^ (3 * e) := Nat.pow_le_pow_right (by decide) h
    _ = 8 ^ e := Nat.pow_mul 2 3 e
    _ ≤ tenToThe e := Nat.pow_le_pow_left (by decide) e

private theorem magnitude_ofNat (c e : Nat) :
    magnitude ⟨c, .ofNat e⟩ = Magnitude.ofRatio (c * tenToThe e) 1 := by
  rw [magnitude]
  split
  · next hzero =>
    rw [hzero, Nat.zero_mul]
    exact (Magnitude.ofRatio_of_lt (by rw [Nat.zero_shiftLeft]; decide)).symm
  · next hpos =>
    split
    · next hfar =>
      refine (Magnitude.ofRatio_of_le Nat.one_pos ?_).symm
      rw [Nat.one_mul]
      have hbeyond : 2 ^ 1024 ≤ tenToThe e := two_pow_le_tenToThe (k := 5) (by decide) hfar
      exact hbeyond.trans (Nat.le_mul_of_pos_left _ (Nat.pos_of_ne_zero hpos))
    · rfl

private theorem magnitude_negSucc (c e : Nat) :
    magnitude ⟨c, .negSucc e⟩ = Magnitude.ofRatio c (tenToThe (e + 1)) := by
  rw [magnitude]
  split
  · next hfar => exact (Magnitude.ofRatio_of_lt (two_mul_lt_tenToThe hfar)).symm
  · rfl

/-- The quotient whose rounding is the magnitude of a decimal has the value of the decimal. -/
theorem exists_ratio (d : Decimal) :
    ∃ p q : Nat, 0 < q ∧ d.value = p / q ∧ d.magnitude = Magnitude.ofRatio p q := by
  obtain ⟨c, e | e⟩ := d
  · refine ⟨_, 1, Nat.one_pos, ?_, magnitude_ofNat c e⟩
    simp [value, cast_tenToThe]
  · refine ⟨_, _, tenToThe_pos (e + 1), ?_, magnitude_negSucc c e⟩
    simp [value, cast_tenToThe, div_eq_mul_inv]

/-- **The magnitude of a decimal depends on its value alone.** -/
theorem magnitude_congr (h : d.value = d'.value) : d.magnitude = d'.magnitude := by
  obtain ⟨p, q, hq, hvalue, hd⟩ := d.exists_ratio
  obtain ⟨p', q', hq', hvalue', hd'⟩ := d'.exists_ratio
  rw [hvalue, hvalue', div_eq_div_iff (by positivity) (by positivity)] at h
  rw [hd, hd', Magnitude.ofRatio_congr hq hq' (by exact_mod_cast h)]

private theorem shiftLeft_eq_mul {p q n k : Nat} (hq : 0 < q) (h : (p / q : ℚ) * 2 ^ k = n) :
    p <<< k = n * q := by
  rw [div_mul_eq_mul_div, div_eq_iff (by positivity)] at h
  rw [Nat.shiftLeft_eq]
  exact_mod_cast h

/-- A decimal with the value of a double has the magnitude of that double. -/
theorem magnitude_eq (hb : b < Magnitude.infinite) (h : d.value * 2 ^ 1074 = Magnitude.units b) :
    d.magnitude = b := by
  obtain ⟨p, q, hq, hvalue, hd⟩ := d.exists_ratio
  rw [hvalue] at h
  rw [hd, Magnitude.ofRatio_eq hb hq (shiftLeft_eq_mul hq h)]

/-! ## The shortest decimal -/

theorem value_trim (c : Nat) (e : Int) : (trim c e).value = c * (10 : ℚ) ^ e := by
  fun_induction trim c e with
  | case1 e => simp [value]
  | case2 c e hpos hten ih =>
    have hc : 10 * (c / 10) = c := Nat.mul_div_cancel' (Nat.dvd_of_mod_eq_zero hten)
    calc (trim (c / 10) (e + 1)).value = ((c / 10 : Nat) : ℚ) * 10 ^ (e + 1) := ih
      _ = ((10 * (c / 10) : Nat) : ℚ) * 10 ^ e := by
        rw [zpow_add_one₀ (by norm_num)]
        push_cast
        ring
      _ = c * 10 ^ e := by rw [hc]
  | case3 c e => rfl

/-- Any number of halves is that number of powers of five, some digits behind the point. -/
theorem value_trim_five (n k : Nat) : (trim (n * Nat.pow 5 k) (-k)).value * 2 ^ k = n := by
  have hfive : ((Nat.pow 5 k : Nat) : ℚ) = 5 ^ k := Nat.cast_pow 5 k
  have hten : (5 : ℚ) ^ k * 2 ^ k = 10 ^ k := by
    rw [← mul_pow]
    norm_num
  rw [value_trim, Nat.cast_mul, hfive, zpow_neg, zpow_natCast, ← hten]
  field_simp

private theorem magnitude_of_neighbour? {step : Int} {d : Decimal}
    (h : neighbour? b step = some d) :
    d.magnitude = b := by
  simp only [neighbour?] at h
  split at h
  · next hbelow =>
    split at h
    · next habove =>
      cases h
      exact habove.1
    · cases h
      exact hbelow
  · split at h
    · next habove =>
      cases h
      exact habove
    · cases h

/-- **The shortest decimal reads back.** -/
theorem magnitude_shortest (hb : b < Magnitude.infinite) : (shortest b).magnitude = b := by
  rw [shortest]
  split
  · next d hd =>
    obtain ⟨n, -, hn⟩ := List.exists_of_findSome?_eq_some hd
    exact magnitude_of_neighbour? hn
  · refine magnitude_eq hb ?_
    generalize hk : 1074 = k
    have hstep : (-1074 : Int) = -(k : Int) := by
      rw [← hk]
      rfl
    rw [hstep, value_trim_five]

end Decimal

end Calculator
