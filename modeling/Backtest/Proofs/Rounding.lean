import Backtest.Proofs.Double

/-!
# Rounding

Reading a decimal and multiplying doubles both cut a quotient down to 53 binary digits and put the result
back together. Here both are shown to miss the exact value by at most one unit of the last digit
(`IsNear`), as long as nothing is too large or too small for a full mantissa:

* `unpack_nearest`: the double that `nearest` chooses for a quotient.
* `roundWithAccuracy_near`: what the language makes of an exact product.
* `roundedMagnitude_eq`: a value less than a half away from a whole number is rounded to it.
-/

namespace Backtest.Decimal

open Float.Model
open Float.Model.UnpackedFloat

/-- The number `m · 2 ^ e` misses `x` by at most one unit. -/
def IsNear (m : Nat) (e : Int) (x : ℚ) : Prop := |(m : ℚ) * 2 ^ e - x| ≤ 2 ^ e

/-- A quotient that is rounded down or up. -/
theorem isNear_of_div {m a b : Nat} (hb : 0 < b) (hm : m = a / b ∨ m = a / b + 1) :
    IsNear m 0 ((a : ℚ) / b) := by
  have hb' : (0 : ℚ) < b := by exact_mod_cast hb
  have hlow : ((a / b : Nat) : ℚ) ≤ a / b := Nat.cast_div_le
  have hhigh : (a : ℚ) / b < (a / b : Nat) + 1 := by
    rw [div_lt_iff₀ hb']
    exact_mod_cast Nat.lt_mul_of_div_lt (Nat.lt_succ_self _) hb
  rw [IsNear, zpow_zero, mul_one, abs_le]
  rcases hm with rfl | rfl
  · constructor <;> linarith
  · push_cast
    constructor <;> linarith

theorem IsNear.scale {m : Nat} {e : Int} {x : ℚ} (h : IsNear m 0 (x / 2 ^ e)) : IsNear m e x := by
  have hpos : (0 : ℚ) < 2 ^ e := by positivity
  have hx : (m : ℚ) * 2 ^ e - x = (m * 2 ^ (0 : Int) - x / 2 ^ e) * 2 ^ e := by
    field_simp
  rw [IsNear, zpow_zero] at h
  rw [IsNear, hx, abs_mul, abs_of_pos hpos]
  exact mul_le_of_le_one_left hpos.le h

/-- A unit twice as large for a mantissa half as large. -/
theorem IsNear.carry {m : Nat} {e : Int} {x : ℚ} (h : IsNear (2 * m) e x) : IsNear m (e + 1) x := by
  have hpos : (0 : ℚ) < 2 ^ e := by positivity
  have hm : (m : ℚ) * 2 ^ (e + 1) = ((2 * m : Nat) : ℚ) * 2 ^ e := by
    rw [zpow_add_one₀ two_ne_zero]
    push_cast
    ring
  rw [IsNear] at h
  rw [IsNear, hm, zpow_add_one₀ two_ne_zero]
  linarith

/-! ## What the language rounds to -/

theorem mantissa_shiftRight (em : ExtendedMantissa) (k : Nat) :
    (em >>> k).mantissa = em.mantissa / 2 ^ k := by
  induction k with
  | zero => exact (Nat.div_one _).symm
  | succ k ih =>
    have hstep : (em >>> (k + 1)).mantissa = (em >>> k).mantissa / 2 := rfl
    rw [hstep, ih, Nat.div_div_eq_div_mul, Nat.pow_succ]

theorem roundedMantissa_eq (em : ExtendedMantissa) :
    em.roundedMantissa = em.mantissa ∨ em.roundedMantissa = em.mantissa + 1 := by
  obtain ⟨m, _ | _, _ | _⟩ := em
  · exact .inl rfl
  · exact .inl rfl
  · show m + m % 2 = m ∨ m + m % 2 = m + 1
    omega
  · exact .inr rfl

/-- A mantissa with 53 digits and `k` more is shifted by `k`. -/
theorem shiftToTargetExponent_eq {m : Nat} {e : Int} {k : Nat} (hk : m.log2 = k + 52) (hlow : -1074 ≤ e) :
    shiftToTargetExponent Format.binary64 m e .exact =
      ((⟨m, false, false⟩ : ExtendedMantissa) >>> k, e + k) := by
  have htarget : (Format.binary64.targetExponent (totalExponent m e) - e).toNat = k := by
    simp only [Format.targetExponent, totalExponent, Format.mantissaBits, Format.minExponent, hk]
    omega
  rw [shiftToTargetExponent, shiftToExponent, htarget]
  rfl

/-- A mantissa of at least 53 digits is cut down to 53 digits. -/
theorem roundWithAccuracy_near (s : Sign) {m : Nat} {e : Int} (hm : fieldUnit ≤ m) (hlow : -1074 ≤ e)
    (hhigh : e + m.log2 ≤ 1022) :
    ∃ m' e', ∃ h : IsNormal m' e',
      roundWithAccuracy Format.binary64 s m e .exact = .finite s m' e' h.pos ∧
      IsNear m' e' (m * 2 ^ e) := by
  have hm0 : m ≠ 0 := Nat.ne_of_gt (Nat.lt_of_lt_of_le (by decide) hm)
  obtain ⟨k, hk⟩ : ∃ k, m.log2 = k + 52 := by
    have := (Nat.le_log2 (k := 52) hm0).mpr hm
    exact ⟨m.log2 - 52, by omega⟩
  have hself := Nat.log2_self_le hm0
  have hlt := Nat.lt_log2_self (n := m)
  rw [hk, Nat.pow_add, Nat.mul_comm] at hself
  rw [hk, show k + 52 + 1 = k + 53 by rfl, Nat.pow_add, Nat.mul_comm] at hlt
  have hquot : 2 ^ 52 ≤ m / 2 ^ k := (Nat.le_div_iff_mul_le (Nat.two_pow_pos k)).mpr hself
  have hquot' : m / 2 ^ k < 2 ^ 53 := (Nat.div_lt_iff_lt_mul (Nat.two_pow_pos k)).mpr hlt
  rw [roundWithAccuracy, shiftToTargetExponent_eq hk hlow]
  obtain ⟨r, hr⟩ : ∃ r, r = ((⟨m, false, false⟩ : ExtendedMantissa) >>> k).roundedMantissa := ⟨_, rfl⟩
  have hround : r = m / 2 ^ k ∨ r = m / 2 ^ k + 1 := by
    rw [hr, ← mantissa_shiftRight ⟨m, false, false⟩]
    exact roundedMantissa_eq _
  have hnear : IsNear r (e + k) (m * 2 ^ e) := by
    apply IsNear.scale
    have hscale : (m : ℚ) * 2 ^ e / 2 ^ (e + k) = (m : ℚ) / ((2 ^ k : Nat) : ℚ) := by
      rw [zpow_add₀ two_ne_zero, zpow_natCast]
      push_cast
      field_simp
    rw [hscale]
    exact isNear_of_div (Nat.two_pow_pos k) hround
  simp only [← hr]
  by_cases hfits : r < 2 ^ 53
  · have hfull : fieldUnit ≤ r := by
      rw [show fieldUnit = 2 ^ 52 by rfl]
      omega
    have hlog : r.log2 = 0 + 52 := log2_of_full hfull hfits
    have hnormal : IsNormal r (e + k) := ⟨hfull, hfits, by omega, by omega⟩
    refine ⟨r, e + k, hnormal, ?_, hnear⟩
    simp only [shiftToTargetExponent_eq hlog hnormal.low, mantissa_shiftRight, Nat.pow_zero,
      Nat.div_one, hnormal.pos.ne', dite_false, Nat.cast_zero, add_zero]
  · obtain rfl : r = 2 * 2 ^ 52 := by omega
    have hlog : (2 * 2 ^ 52 : Nat).log2 = 1 + 52 := by decide
    have hnormal : IsNormal (2 ^ 52) (e + k + 1) := ⟨by decide, by decide, by omega, by omega⟩
    refine ⟨2 ^ 52, e + k + 1, hnormal, ?_, hnear.carry⟩
    have hhalf : 2 * 2 ^ 52 / 2 ^ 1 = 2 ^ 52 := by decide
    simp only [shiftToTargetExponent_eq hlog (show -1074 ≤ e + k by omega), mantissa_shiftRight, hhalf,
      hnormal.pos.ne', dite_false, Nat.cast_one]

/-- Whole numbers of 64 digits are far below the largest double. -/
theorem isFinite_toFloat (n : UInt64) : n.toFloat.isFinite = true := by
  have hlt : n.toNat < 2 ^ 64 := n.toNat_lt
  show (Float.Model.pack (normalize Format.binary64 (n.toNat : Int) 0 .positive)).isFinite = true
  generalize n.toNat = m at hlt
  rcases Nat.eq_zero_or_pos m with rfl | hpos
  · decide
  obtain ⟨k, hk⟩ : ∃ k, k = 52 - m.log2 := ⟨_, rfl⟩
  have hcompare : compare (m : Int) 0 = .gt := by
    rw [Int.compare_eq_gt]
    omega
  have htarget : (0 - Format.binary64.targetExponent (totalExponent m 0)).toNat = k := by
    simp only [Format.targetExponent, totalExponent, Format.mantissaBits, Format.minExponent]
    omega
  have hfull : fieldUnit ≤ m <<< k := by
    calc 2 ^ 52 ≤ 2 ^ (m.log2 + k) := Nat.pow_le_pow_right two_pos (by omega)
      _ = 2 ^ m.log2 * 2 ^ k := Nat.pow_add 2 _ _
      _ ≤ m * 2 ^ k := Nat.mul_le_mul_right _ (Nat.log2_self_le hpos.ne')
      _ = m <<< k := (Nat.shiftLeft_eq m k).symm
  have hsmall : m <<< k < 2 ^ 116 := by
    calc m <<< k = m * 2 ^ k := Nat.shiftLeft_eq m k
      _ < 2 ^ 64 * 2 ^ k := Nat.mul_lt_mul_of_pos_right hlt (Nat.two_pow_pos k)
      _ ≤ 2 ^ 64 * 2 ^ 52 := Nat.mul_le_mul_left _ (Nat.pow_le_pow_right two_pos (by omega))
      _ = 2 ^ 116 := by norm_num
  have hlog : (m <<< k).log2 < 116 :=
    (Nat.log2_lt (Nat.ne_of_gt (Nat.lt_of_lt_of_le (by decide) hfull))).mpr hsmall
  obtain ⟨m', e', h, heq, -⟩ := roundWithAccuracy_near .positive hfull
    (show -1074 ≤ 0 - (k : Int) by omega) (by omega)
  have hround : normalize Format.binary64 (m : Int) 0 .positive = .finite .positive m' e' h.pos := by
    rw [UnpackedFloat.normalize, hcompare]
    show round Format.binary64 .positive m 0 = _
    rw [UnpackedFloat.round, decreaseExponent, htarget]
    exact heq
  rw [hround]
  exact isFinite_pack h.pos h.high

/-! ## The double of a quotient -/

/-- Scaling divides the quotient by a power of two. -/
theorem scaled_div (num : Nat) {den : Nat} (hden : 0 < den) (e : Int) :
    0 < (scaled num den e).2 ∧
      ((scaled num den e).1 : ℚ) / (scaled num den e).2 = (num : ℚ) / den / 2 ^ e := by
  rw [scaled]
  split_ifs with he
  · obtain ⟨k, rfl⟩ := Int.eq_ofNat_of_zero_le he
    refine ⟨Nat.mul_pos hden (Nat.two_pow_pos _), ?_⟩
    rw [Int.toNat_natCast, zpow_natCast, Nat.pow_eq, div_div]
    push_cast
    rfl
  · obtain ⟨k, rfl⟩ : ∃ k : Nat, e = -k := ⟨(-e).toNat, by omega⟩
    refine ⟨hden, ?_⟩
    rw [neg_neg, Int.toNat_natCast, zpow_neg, zpow_natCast, Nat.pow_eq, div_inv_eq_mul]
    push_cast
    ring

/-- The quotient of two numbers stands next to the quotient of their leading digits. -/
theorem div_bounds {num den : Nat} (hnum : 0 < num) (hden : 0 < den) :
    (1 : ℚ) / 2 < (num : ℚ) / den / 2 ^ ((num.log2 : Int) - den.log2) ∧
      (num : ℚ) / den / 2 ^ ((num.log2 : Int) - den.log2) < 2 := by
  have hn : ((2 ^ num.log2 : Nat) : ℚ) ≤ num := by exact_mod_cast Nat.log2_self_le hnum.ne'
  have hn' : (num : ℚ) < ((2 ^ (num.log2 + 1) : Nat) : ℚ) := by exact_mod_cast Nat.lt_log2_self
  have hd : ((2 ^ den.log2 : Nat) : ℚ) ≤ den := by exact_mod_cast Nat.log2_self_le hden.ne'
  have hd' : (den : ℚ) < ((2 ^ (den.log2 + 1) : Nat) : ℚ) := by exact_mod_cast Nat.lt_log2_self
  push_cast at hn hn' hd hd'
  have hpos : (0 : ℚ) < den := by exact_mod_cast hden
  have hnpos : (0 : ℚ) < num := by exact_mod_cast hnum
  rw [pow_succ] at hn' hd'
  rw [zpow_sub₀ two_ne_zero, zpow_natCast, zpow_natCast]
  generalize (2 : ℚ) ^ num.log2 = a at *
  generalize (2 : ℚ) ^ den.log2 = b at *
  have hb : 0 < b := by linarith
  have ha : 0 < a := by linarith
  have hquot : (num : ℚ) / den / (a / b) = num * b / (den * a) := by field_simp
  rw [hquot, div_lt_div_iff₀ two_pos (mul_pos hpos ha), div_lt_iff₀ (mul_pos hpos ha)]
  constructor
  · calc 1 * ((den : ℚ) * a) = den * a := one_mul _
      _ ≤ den * num := mul_le_mul_of_nonneg_left hn hpos.le
      _ < b * 2 * num := mul_lt_mul_of_pos_right hd' hnpos
      _ = num * b * 2 := by ring
  · calc (num : ℚ) * b < a * 2 * b := mul_lt_mul_of_pos_right hn' hb
      _ ≤ a * 2 * den := mul_le_mul_of_nonneg_left hd (by linarith)
      _ = 2 * (den * a) := by ring

/-- The exponent for which a quotient has 53 digits in front of the point; below the lowest one it is raised. -/
theorem exists_unitExponent {num den : Nat} (hnum : 0 < num) (hden : 0 < den) :
    ∃ e : Int, unitExponent num den = max e (-1074) ∧ (2 : ℚ) ^ 52 ≤ (num : ℚ) / den / 2 ^ e ∧
      (num : ℚ) / den / 2 ^ e < 2 ^ 53 ∧ (num.log2 : Int) - den.log2 - 53 ≤ e ∧
      e ≤ (num.log2 : Int) - den.log2 - 52 := by
  obtain ⟨hx, hx'⟩ := div_bounds hnum hden
  obtain ⟨hd, hscaled⟩ := scaled_div num hden ((num.log2 : Int) - den.log2)
  have hd' : (0 : ℚ) < (scaled num den ((num.log2 : Int) - den.log2)).2 := by exact_mod_cast hd
  simp only [unitExponent]
  generalize (num.log2 : Int) - den.log2 = e at *
  generalize (num : ℚ) / den = x at *
  have hle : (scaled num den e).2 ≤ (scaled num den e).1 ↔ 1 ≤ x / 2 ^ e := by
    rw [← hscaled, one_le_div hd']
    exact_mod_cast Iff.rfl
  simp only [hle]
  have hshift : ∀ k : Nat, x / 2 ^ (e - k) = x / 2 ^ e * 2 ^ k := by
    intro k
    rw [zpow_sub₀ two_ne_zero, zpow_natCast, div_div_eq_mul_div, mul_div_right_comm]
  split_ifs with hone
  · refine ⟨e - 52, rfl, ?_, ?_, by omega, by omega⟩
    · rw [show e - 52 = e - (52 : Nat) by rfl, hshift]
      linarith
    · rw [show e - 52 = e - (52 : Nat) by rfl, hshift]
      linarith
  · refine ⟨e - 53, rfl, ?_, ?_, by omega, by omega⟩
    · rw [show e - 53 = e - (53 : Nat) by rfl, hshift]
      linarith
    · rw [show e - 53 = e - (53 : Nat) by rfl, hshift]
      linarith

theorem unitExponent_spec {num den : Nat} (hnum : 0 < num) (hden : 0 < den)
    (hlow : -1000 ≤ (num.log2 : Int) - den.log2) (hhigh : (num.log2 : Int) - den.log2 ≤ 1000) :
    (2 : ℚ) ^ 52 ≤ (num : ℚ) / den / 2 ^ unitExponent num den ∧
      (num : ℚ) / den / 2 ^ unitExponent num den < 2 ^ 53 ∧
      -1053 ≤ unitExponent num den ∧ unitExponent num den ≤ 948 := by
  obtain ⟨e, he, hfull, hfits, hbelow, habove⟩ := exists_unitExponent hnum hden
  rw [he, max_eq_left (by omega)]
  exact ⟨hfull, hfits, by omega, by omega⟩

theorem roundDivEven_eq (a b : Nat) : roundDivEven a b = a / b ∨ roundDivEven a b = a / b + 1 := by
  simp only [roundDivEven]
  split_ifs
  · exact .inl rfl
  · exact .inr rfl
  · omega

/-- The bit pattern of a rounded mantissa, above which the exponent field is counted from one: the
leading digit of the mantissa adds the one, and a mantissa that was rounded up to 54 digits adds two. -/
theorem unpack_rounded {r k : Nat} {x : ℚ} (hlow : fieldUnit ≤ r) (hhigh : r ≤ 2 * fieldUnit)
    (hk : k ≤ 2022) (hnear : IsNear r (k - 1074) x) :
    ∃ m e, ∃ h : IsNormal m e,
      (Float.ofBits (UInt64.ofNat (min (r + k * fieldUnit) (fieldMax * fieldUnit)))).toModel.unpack =
        .finite .positive m e h.pos ∧ IsNear m e x := by
  have htop : (k + 3) * fieldUnit ≤ fieldMax * fieldUnit :=
    Nat.mul_le_mul_right fieldUnit (by rw [fieldMax]; omega)
  rw [Nat.add_mul] at htop
  rw [min_eq_left (by omega)]
  rcases Nat.lt_or_eq_of_le hhigh with hfits | rfl
  · obtain ⟨fraction, rfl⟩ := Nat.exists_eq_add_of_le hlow
    have hnormal : IsNormal (fieldUnit + fraction) ((k + 1 : Nat) - 1075) :=
      ⟨hlow, hfits, by omega, by omega⟩
    refine ⟨_, _, hnormal, ?_, ?_⟩
    · rw [show fieldUnit + fraction + k * fieldUnit = fraction + (k + 1) * fieldUnit by ring]
      exact unpack_ofBits (by omega) (by rw [fieldMax]; omega) (by omega)
    · rwa [show ((k + 1 : Nat) : Int) - 1075 = k - 1074 by omega]
  · have hnormal : IsNormal (fieldUnit + 0) ((k + 2 : Nat) - 1075) :=
      ⟨le_rfl, by decide, by omega, by omega⟩
    refine ⟨_, _, hnormal, ?_, ?_⟩
    · rw [show 2 * fieldUnit + k * fieldUnit = 0 + (k + 2) * fieldUnit by ring]
      exact unpack_ofBits (by omega) (by rw [fieldMax]; omega) (by decide)
    · rw [show ((k + 2 : Nat) : Int) - 1075 = k - 1074 + 1 by omega]
      exact hnear.carry

/-- The double next to a quotient. -/
theorem unpack_nearest {num den : Nat} (hnum : 0 < num) (hden : 0 < den)
    (hlow : -1000 ≤ (num.log2 : Int) - den.log2) (hhigh : (num.log2 : Int) - den.log2 ≤ 1000) :
    ∃ m e, ∃ h : IsNormal m e, (nearest false num den).toModel.unpack = .finite .positive m e h.pos ∧
      IsNear m e ((num : ℚ) / den) := by
  obtain ⟨hfull, hfits, hq, hq'⟩ := unitExponent_spec hnum hden hlow hhigh
  obtain ⟨hd, hscaled⟩ := scaled_div num hden (unitExponent num den)
  have hbits : nearestBits num den = min (roundDivEven (scaled num den (unitExponent num den)).1
      (scaled num den (unitExponent num den)).2 + (unitExponent num den + 1074).toNat * fieldUnit)
      (fieldMax * fieldUnit) := by
    rw [nearestBits, if_neg hnum.ne']
  rw [nearest, hbits, if_neg (by decide), Nat.add_zero]
  clear hbits
  generalize unitExponent num den = q at *
  generalize (scaled num den q).1 = n at *
  generalize (scaled num den q).2 = d at *
  have hround := roundDivEven_eq n d
  generalize roundDivEven n d = r at *
  have hnear : IsNear r q ((num : ℚ) / den) := by
    apply IsNear.scale
    rw [← hscaled]
    exact isNear_of_div hd hround
  have hunit : (fieldUnit : ℚ) = 2 ^ 52 := by norm_num [fieldUnit]
  have hd' : (0 : ℚ) < d := by exact_mod_cast hd
  rw [← hscaled, le_div_iff₀ hd', ← hunit] at hfull
  rw [← hscaled, div_lt_iff₀ hd', pow_succ, ← hunit] at hfits
  have hquot : fieldUnit ≤ n / d := (Nat.le_div_iff_mul_le hd).mpr (by exact_mod_cast hfull)
  have hquot' : n / d < fieldUnit * 2 := (Nat.div_lt_iff_lt_mul hd).mpr (by exact_mod_cast hfits)
  obtain ⟨k, rfl⟩ : ∃ k : Nat, q = k - 1074 := ⟨(q + 1074).toNat, by omega⟩
  rw [show ((k : Int) - 1074 + 1074).toNat = k by omega]
  exact unpack_rounded (by omega) (by omega) (by omega) hnear

/-! ## Whole numbers -/

/-- The magnitude of a finite value. -/
def Binary.magnitude (b : Binary) : ℚ := b.mantissa * 2 ^ b.exponent

theorem roundedMagnitude_eq {b : Binary} {n : Nat} (h : |b.magnitude - n| < 1 / 2) :
    b.roundedMagnitude = n := by
  obtain ⟨negative, m, e⟩ := b
  simp only [Binary.magnitude, Binary.roundedMagnitude] at *
  split_ifs with he
  · obtain ⟨k, rfl⟩ := Int.eq_ofNat_of_zero_le he
    rw [Int.toNat_natCast, Nat.pow_eq]
    rw [zpow_natCast, abs_lt] at h
    have hlt : ((m * 2 ^ k : Nat) : ℚ) < (n + 1 : Nat) := by
      push_cast
      linarith
    have hgt : ((n : Nat) : ℚ) < (m * 2 ^ k + 1 : Nat) := by
      push_cast
      linarith
    rw [Nat.cast_lt] at hlt hgt
    omega
  · obtain ⟨k, rfl⟩ : ∃ k : Nat, e = -k := ⟨(-e).toNat, by omega⟩
    rw [neg_neg, Int.toNat_natCast, Nat.pow_eq, roundDivUp]
    have hpos : (0 : ℚ) < 2 ^ k := by positivity
    have hm : (m : ℚ) = m * 2 ^ (-(k : Int)) * 2 ^ k := by
      rw [zpow_neg, zpow_natCast, inv_mul_cancel_right₀ hpos.ne']
    rw [abs_lt] at h
    generalize (m : ℚ) * 2 ^ (-(k : Int)) = x at *
    apply Nat.div_eq_of_lt_le
    · have hle : ((n * (2 * 2 ^ k) : Nat) : ℚ) ≤ (2 * m + 2 ^ k : Nat) := by
        push_cast
        rw [hm]
        nlinarith [h.1]
      exact_mod_cast hle
    · have hlt : ((2 * m + 2 ^ k : Nat) : ℚ) < ((n + 1) * (2 * 2 ^ k) : Nat) := by
        push_cast
        rw [hm]
        nlinarith [h.2]
      exact_mod_cast hlt

end Backtest.Decimal
