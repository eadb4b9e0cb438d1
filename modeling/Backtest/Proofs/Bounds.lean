import Backtest.Proofs.Arithmetic
import Backtest.Scalar

/-!
# Bounds through arithmetic

Whole numbers below `2 ^ 53` are doubles, and no rounding passes them (`IsRounded.between`). So a result that
is known to lie between two of them is finite, and stays there.

A lower bound holds through arithmetic with infinity as well (`AtLeast.add`, `AtLeast.sub`, `AtLeast.mul`,
`AtLeast.div`), and through rounding to a whole number (`AtLeast.roundWhole`). What is at least something is
not a NaN.
-/

namespace Backtest.Decimal

open Float.Model
open Float.Model.UnpackedFloat

/-! ## Whole numbers as doubles -/

/-- Whole numbers of 53 digits are doubles. -/
theorem exists_toRat_eq {n : Int} (hn : n.natAbs < 2 * fieldUnit) :
    ∃ z : Float, z.isFinite = true ∧ toRat z = n := by
  obtain ⟨s, m, rfl, hm⟩ : ∃ (s : Sign) (m : Nat), n = s.apply m ∧ m < 2 * fieldUnit := by
    rcases Int.natAbs_eq n with h | h
    · exact ⟨.positive, n.natAbs, h, hn⟩
    · exact ⟨.negative, n.natAbs, h, hn⟩
  obtain ⟨p, e, hp, he, hvalue⟩ : ∃ p e, IsCanonical p e ∧ e ≤ 971 ∧ (p : ℚ) * 2 ^ e = m := by
    rcases Nat.eq_zero_or_pos m with rfl | hpos
    · exact ⟨0, -1074, ⟨by decide, le_rfl, .inr rfl⟩, by decide, by simp⟩
    have hlog : m.log2 ≤ 52 := Nat.le_of_lt_succ ((Nat.log2_lt hpos.ne').mpr hm)
    obtain ⟨k, hk⟩ : ∃ k, m.log2 + k = 52 := ⟨52 - m.log2, by omega⟩
    have hlog' : (m <<< k).log2 = 52 := by rw [log2_shiftLeft hpos, hk]
    have hpos' : m <<< k ≠ 0 := by
      rw [Nat.shiftLeft_eq]
      positivity
    have hfits : m <<< k < 2 * fieldUnit := (Nat.log2_lt (k := 53) hpos').mp (by omega)
    refine ⟨m <<< k, -k, ⟨hfits, by omega, .inl ?_⟩, by omega, ?_⟩
    · exact (Nat.le_log2 hpos').mp hlog'.ge
    · rw [Nat.shiftLeft_eq, zpow_neg, zpow_natCast]
      push_cast
      field_simp
  have hunpack : (Float.ofModel (Float.Model.pack (ofParts s p e))).toModel.unpack = ofParts s p e :=
    (unpack_pack_ofParts hp).trans (if_pos he)
  refine ⟨.ofModel (Float.Model.pack (ofParts s p e)), ?_, ?_⟩
  · show (Float.ofModel (Float.Model.pack (ofParts s p e))).toModel.unpack.isFinite = true
    rw [hunpack, isFinite_ofParts]
  · rw [toRat, hunpack, rational_ofParts, hvalue, signed_apply]

section

variable {x : Float} {q : ℚ}

theorem IsRounded.atLeast_int (h : IsRounded x q) {n : Int} (hn : n.natAbs < 2 * fieldUnit) (hq : n ≤ q) :
    AtLeast n x := by
  obtain ⟨z, hz, hzn⟩ := exists_toRat_eq hn
  exact hzn ▸ h.atLeast z hz (hzn ▸ hq)

theorem IsRounded.atMost_int (h : IsRounded x q) {n : Int} (hn : n.natAbs < 2 * fieldUnit) (hq : q ≤ n) :
    AtMost n x := by
  obtain ⟨z, hz, hzn⟩ := exists_toRat_eq hn
  exact hzn ▸ h.atMost z hz (hzn ▸ hq)

/-- A rounding of a number between two whole numbers. -/
theorem IsRounded.between (h : IsRounded x q) {a b : Int} (ha : a.natAbs < 2 * fieldUnit)
    (hb : b.natAbs < 2 * fieldUnit) (haq : a ≤ q) (hqb : q ≤ b) :
    x.isFinite = true ∧ a ≤ toRat x ∧ toRat x ≤ b :=
  (h.atLeast_int ha haq).finite (h.atMost_int hb hqb)

theorem IsRounded.between_zero (h : IsRounded x q) {n : Nat} (hn : n < 2 * fieldUnit) (hlow : 0 ≤ q)
    (hhigh : q ≤ n) : x.isFinite = true ∧ 0 ≤ toRat x ∧ toRat x ≤ n := by
  have hbetween := h.between (a := 0) (b := n) (by decide) (by rwa [Int.natAbs_natCast])
    (by rwa [Int.cast_zero]) (by rwa [Int.cast_natCast])
  rwa [Int.cast_zero, Int.cast_natCast] at hbetween

/-- Whole numbers are not rounded. -/
theorem IsRounded.eq_int {n : Int} (h : IsRounded x n) (hn : n.natAbs < 2 * fieldUnit) :
    x.isFinite = true ∧ toRat x = n := by
  obtain ⟨hx, hlow, hhigh⟩ := h.between hn hn le_rfl le_rfl
  exact ⟨hx, le_antisymm hhigh hlow⟩

/-- Doubles are not rounded either. -/
theorem IsRounded.eq_double {z : Float} (h : IsRounded x (toRat z)) (hz : z.isFinite = true) :
    x.isFinite = true ∧ toRat x = toRat z := by
  obtain ⟨hx, hlow, hhigh⟩ := (h.atLeast z hz le_rfl).finite (h.atMost z hz le_rfl)
  exact ⟨hx, le_antisymm hhigh hlow⟩

theorem AtMost.isNaN_eq_false (h : AtMost q x) : x.isNaN = false := by
  rcases h with ⟨hx, -⟩ | hx
  · exact isNaN_of_isFinite hx
  · exact isNaN_of_infinite hx

theorem IsRounded.isNaN_eq_false (h : IsRounded x q) : x.isNaN = false := by
  rcases le_total 0 q with hq | hq
  · exact (h.atLeast_int (n := 0) (by decide) (by exact_mod_cast hq)).isNaN_eq_false
  · exact (h.atMost_int (n := 0) (by decide) (by exact_mod_cast hq)).isNaN_eq_false

end

theorem toRat_toFloat {n : Nat} (hn : n < 2 * fieldUnit) :
    (UInt64.ofNat n).toFloat.isFinite = true ∧ toRat (UInt64.ofNat n).toFloat = n := by
  have hround := isRounded_toFloat (UInt64.ofNat n)
  have hsame : (UInt64.ofNat n).toNat = n :=
    UInt64.toNat_ofNat_of_lt' (hn.trans_le (by decide))
  rw [hsame] at hround
  exact hround.eq_int (n := n) (by rwa [Int.natAbs_natCast])

/-- A whole number of 64 bits is not rounded below a smaller one of 53 digits. -/
theorem le_toRat_toFloat {k n : Nat} (hn : n < 2 ^ 64) (hle : k ≤ n) (hk : k < 2 * fieldUnit) :
    (k : ℚ) ≤ toRat (UInt64.ofNat n).toFloat := by
  have hround := isRounded_toFloat (UInt64.ofNat n)
  rw [UInt64.toNat_ofNat_of_lt' hn] at hround
  have hleast := hround.atLeast_int (n := k) (by rwa [Int.natAbs_natCast]) (by exact_mod_cast hle)
  rcases hleast with ⟨-, hk⟩ | hinf
  · exact_mod_cast hk
  · exact absurd hinf (unpack_ne_infinity (isFinite_toFloat _))

/-! ## Infinity -/

section

variable {x y : Float} {s : Sign} (hx : x.toModel.unpack = .infinity s) (hy : y.isFinite = true)

include hy in
theorem exists_parts_of_pos (hpos : 0 < toRat y) :
    ∃ m e, ∃ hm : 0 < m, y.toModel.unpack = .finite .positive m e hm := by
  obtain ⟨s, m, e, -, -, hym⟩ := exists_parts hy
  rw [toRat, hym, rational_ofParts] at hpos
  rcases Nat.eq_zero_or_pos m with rfl | hm
  · rw [Nat.cast_zero, zero_mul, signed_zero] at hpos
    exact absurd hpos (lt_irrefl 0)
  · cases s with
    | positive => exact ⟨m, e, hm, hym.trans (ofParts_pos _ hm e)⟩
    | negative => exact absurd hpos (not_lt_of_gt (neg_lt_zero.mpr (magnitude_pos hm e)))

include hx hy

theorem infinity_add : (x + y).toModel.unpack = .infinity s := by
  obtain ⟨t, m, e, -, -, hym⟩ := exists_parts hy
  show (Float.Model.pack (x.toModel.unpack.add .binary64 y.toModel.unpack)).unpack = _
  rw [hx, hym, ofParts]
  split_ifs <;> exact unpack_pack_infinity s

theorem add_infinity : (y + x).toModel.unpack = .infinity s := by
  obtain ⟨t, m, e, -, -, hym⟩ := exists_parts hy
  show (Float.Model.pack (y.toModel.unpack.add .binary64 x.toModel.unpack)).unpack = _
  rw [hx, hym, ofParts]
  split_ifs <;> exact unpack_pack_infinity s

theorem infinity_sub : (x - y).toModel.unpack = .infinity s := by
  obtain ⟨t, m, e, -, -, hym⟩ := exists_parts hy
  show (Float.Model.pack (x.toModel.unpack.sub .binary64 y.toModel.unpack)).unpack = _
  rw [hx, hym, ofParts]
  split_ifs <;> exact unpack_pack_infinity s

theorem infinity_mul (hpos : 0 < toRat y) : (x * y).toModel.unpack = .infinity s := by
  obtain ⟨m, e, hm, hym⟩ := exists_parts_of_pos hy hpos
  show (Float.Model.pack (x.toModel.unpack.mul .binary64 y.toModel.unpack)).unpack = _
  rw [hx, hym]
  cases s <;> exact unpack_pack_infinity _

theorem infinity_div (hpos : 0 < toRat y) : (x / y).toModel.unpack = .infinity s := by
  obtain ⟨m, e, hm, hym⟩ := exists_parts_of_pos hy hpos
  show (Float.Model.pack (x.toModel.unpack.div .binary64 y.toModel.unpack)).unpack = _
  rw [hx, hym]
  cases s <;> exact unpack_pack_infinity _

end

section

variable {x y : Float} (hx : x.isNaN = false) (hy : y.isFinite = true)

include hx hy

theorem isNaN_add : (x + y).isNaN = false := by
  by_cases hfinite : x.isFinite = true
  · exact (isRounded_add hfinite hy).isNaN_eq_false
  · obtain ⟨s, hinf⟩ := infinite_of_not_finite hx hfinite
    exact isNaN_of_infinite (infinity_add hinf hy)

theorem isNaN_div (hpos : 0 < toRat y) : (x / y).isNaN = false := by
  by_cases hfinite : x.isFinite = true
  · exact (isRounded_div hfinite hy hpos.ne').isNaN_eq_false
  · obtain ⟨s, hinf⟩ := infinite_of_not_finite hx hfinite
    exact isNaN_of_infinite (infinity_div hinf hy hpos)

end

/-! ## Lower bounds -/

section

variable {x y : Float} {p : ℚ} {n : Int} (h : AtLeast p x) (hy : y.isFinite = true)
  (hn : n.natAbs < 2 * fieldUnit)

include h hy hn

theorem AtLeast.add (hle : n ≤ toRat y + p) : AtLeast n (y + x) := by
  rcases h with ⟨hx, hp⟩ | hx
  · exact (isRounded_add hy hx).atLeast_int hn (by linarith)
  · exact .inr (add_infinity hx hy)

theorem AtLeast.add_right (hle : n ≤ p + toRat y) : AtLeast n (x + y) := by
  rcases h with ⟨hx, hp⟩ | hx
  · exact (isRounded_add hx hy).atLeast_int hn (by linarith)
  · exact .inr (infinity_add hx hy)

theorem AtLeast.sub (hle : n ≤ p - toRat y) : AtLeast n (x - y) := by
  rcases h with ⟨hx, hp⟩ | hx
  · exact (isRounded_sub hx hy).atLeast_int hn (by linarith)
  · exact .inr (infinity_sub hx hy)

theorem AtLeast.mul (hpos : 0 < toRat y) (hle : n ≤ p * toRat y) : AtLeast n (x * y) := by
  rcases h with ⟨hx, hp⟩ | hx
  · exact (isRounded_mul hx hy).atLeast_int hn (hle.trans (mul_le_mul_of_nonneg_right hp hpos.le))
  · exact .inr (infinity_mul hx hy hpos)

theorem AtLeast.div (hpos : 0 < toRat y) (hle : n ≤ p / toRat y) : AtLeast n (x / y) := by
  rcases h with ⟨hx, hp⟩ | hx
  · exact (isRounded_div hx hy hpos.ne').atLeast_int hn (hle.trans (div_le_div_of_nonneg_right hp hpos.le))
  · exact .inr (infinity_div hx hy hpos)

end

/-- A number that is not below a finite double is at least that. -/
theorem atLeast_of_not_lt {x z : Float} (hz : z.isFinite = true) (hx : x ≤ x) (h : ¬ x < z) :
    AtLeast (toRat z) x := by
  obtain ⟨s, m, e, -, -, hzm⟩ := exists_parts hz
  rcases unpack_cases x.toModel.toBits.toBitVec with hnan | hinf | ⟨m', e', -, -, hparts⟩
  · have hnan : x.toModel.unpack = .notANumber := hnan
    rw [le_iff_unpack, hnan] at hx
    cases hx
  · obtain ⟨t, hinf⟩ : ∃ t, x.toModel.unpack = .infinity t := ⟨_, hinf⟩
    cases t with
    | positive => exact .inr hinf
    | negative =>
      refine absurd (lt_iff_unpack.mpr ?_) h
      rw [hinf, hzm, ofParts]
      split_ifs <;> rfl
  · have hfinite : x.isFinite = true := by
      obtain ⟨t, hparts⟩ : ∃ t, x.toModel.unpack = ofParts t m' e' := ⟨_, hparts⟩
      show x.toModel.unpack.isFinite = true
      rw [hparts, isFinite_ofParts]
    exact .inl ⟨hfinite, not_lt.mp fun hlt => h ((lt_iff_toRat hfinite hz).mpr hlt)⟩

theorem atLeast_of_le {x z : Float} (hz : z.isFinite = true) (h : z ≤ x) : AtLeast (toRat z) x := by
  by_cases hx : x.isFinite = true
  · exact .inl ⟨hx, (le_iff_toRat hz hx).mp h⟩
  · obtain ⟨s, m, e, -, -, hzm⟩ := exists_parts hz
    rw [le_iff_unpack, hzm, ofParts] at h
    have hfinite : ¬ x.toModel.unpack.isFinite = true := hx
    right
    cases hxm : x.toModel.unpack with
    | infinity t =>
      cases t with
      | positive => rfl
      | negative =>
        rw [hxm] at h
        split_ifs at h <;> cases h
    | notANumber =>
      rw [hxm] at h
      split_ifs at h <;> cases h
    | zero | finite =>
      rw [hxm] at hfinite
      exact absurd rfl hfinite

/-- The difference of two doubles that are not negative does not overflow. -/
theorem isFinite_sub {x y : Float} (hx : x.isFinite = true) (hy : y.isFinite = true) (hx0 : 0 ≤ toRat x)
    (hy0 : 0 ≤ toRat y) : (x - y).isFinite = true := by
  have hround := isRounded_sub hx hy
  have hleast := hround.atLeast (-y) ((isFinite_neg y).trans hy) (by rw [toRat_neg hy]; linarith)
  exact (hleast.finite (hround.atMost x hx (by linarith))).1

theorem toRat_abs {x : Float} (hx : x.isFinite = true) : x.abs.isFinite = true ∧ toRat x.abs = |toRat x| := by
  obtain ⟨s, m, e, h, he, hxm⟩ := exists_parts hx
  have habs : (ofParts s m e).abs = ofParts .positive m e := by
    rw [ofParts, ofParts]
    split_ifs <;> rfl
  have hunpack : x.abs.toModel.unpack = ofParts .positive m e := by
    show (Float.Model.pack x.toModel.unpack.abs).unpack = _
    rw [hxm, habs, unpack_pack_ofParts h, if_pos he]
  constructor
  · show x.abs.toModel.unpack.isFinite = true
    rw [hunpack, isFinite_ofParts]
  · have hpos : (0 : ℚ) ≤ m * 2 ^ e := by positivity
    rw [toRat, toRat, hunpack, hxm, rational_ofParts, rational_ofParts]
    cases s with
    | positive => exact (abs_of_nonneg hpos).symm
    | negative => exact ((abs_neg _).trans (abs_of_nonneg hpos)).symm

/-! ## Rounding to a whole number -/

/-- A double keeps what its bit pattern stands for. -/
theorem unpack_ofBits_eq (u : UInt64) :
    (Float.ofBits u).toModel.unpack = UnpackedFloat.unpack Format.binary64 u.toBitVec := by
  show (Float.Model.pack (UnpackedFloat.unpack Format.binary64 u.toBitVec)).unpack = _
  rcases unpack_cases u.toBitVec with hnan | hinf | ⟨m, e, h, he, hparts⟩
  · rw [hnan]
    rfl
  · rw [hinf]
    exact unpack_pack_infinity _
  · rw [hparts, unpack_pack_ofParts h, if_pos he]

theorem unpackSign_of_lt {b : BitVec Format.binary64.numBits} (hb : b.toNat < signBit) :
    Sign.ofBitVec (unpackSign b) = .positive := by
  have hzero : unpackSign b = 0#1 := by
    apply BitVec.eq_of_toNat_eq
    rw [toNat_unpackSign, Nat.div_eq_of_lt hb]
    rfl
  rw [hzero]
  rfl

/-- The highest bit is the sign. -/
theorem unpack_sign {b b' : BitVec Format.binary64.numBits} (hb : b.toNat < signBit)
    (h : b'.toNat = b.toNat + signBit) :
    UnpackedFloat.unpack Format.binary64 b' = (UnpackedFloat.unpack Format.binary64 b).neg := by
  have hmantissa : unpackMantissa b' = unpackMantissa b := by
    apply BitVec.eq_of_toNat_eq
    rw [toNat_unpackMantissa, toNat_unpackMantissa, h]
    simp only [fieldUnit, signBit]
    omega
  have hexponent : unpackExponent b' = unpackExponent b := by
    apply BitVec.eq_of_toNat_eq
    rw [toNat_unpackExponent, toNat_unpackExponent, h]
    simp only [fieldUnit, fieldMax, signBit]
    omega
  have hnegative : unpackSign b' = 1#1 := by
    apply BitVec.eq_of_toNat_eq
    rw [toNat_unpackSign, h, Nat.add_div_right _ (by decide), Nat.div_eq_of_lt hb]
    rfl
  rw [UnpackedFloat.unpack, UnpackedFloat.unpack]
  simp only [hmantissa, hexponent, unpackSign_of_lt hb, hnegative]
  split_ifs <;> rfl

theorem nearestBits_le (num den : Nat) : nearestBits num den ≤ fieldMax * fieldUnit := by
  rw [nearestBits]
  split_ifs
  · exact Nat.zero_le _
  · exact min_le_right _ _

theorem toNat_bits {n : Nat} (hn : n < 2 ^ 64) : (UInt64.ofNat n).toBitVec.toNat = n :=
  Nat.mod_eq_of_lt hn

theorem unpack_nearest_true (num den : Nat) :
    (nearest true num den).toModel.unpack = (nearest false num den).toModel.unpack.neg := by
  have hle := nearestBits_le num den
  simp only [fieldMax, fieldUnit] at hle
  rw [nearest, nearest, unpack_ofBits_eq, unpack_ofBits_eq]
  apply unpack_sign
  · rw [toNat_bits (by simp only [Bool.false_eq_true, if_false]; omega)]
    simp only [Bool.false_eq_true, if_false, signBit]
    omega
  · rw [toNat_bits (by simp only [if_true, signBit]; omega),
      toNat_bits (by simp only [Bool.false_eq_true, if_false]; omega)]
    simp only [if_true, Bool.false_eq_true, if_false, Nat.add_zero]

/-- The pattern of infinity is the largest one that is not a NaN. -/
theorem unpack_ne_notANumber {b : BitVec Format.binary64.numBits} (hb : b.toNat ≤ fieldMax * fieldUnit) :
    UnpackedFloat.unpack Format.binary64 b ≠ .notANumber := by
  rw [UnpackedFloat.unpack]
  split_ifs with htop hinf hbottom hzero
  · simp
  · exfalso
    have htop' := congrArg BitVec.toNat htop
    rw [toNat_unpackExponent] at htop'
    apply hinf
    apply BitVec.eq_of_toNat_eq
    rw [toNat_unpackMantissa]
    have hmax : (-1#11 : BitVec 11).toNat = 2047 := rfl
    simp only [hmax, fieldMax, fieldUnit, BitVec.toNat_zero] at *
    omega
  · simp
  · simp
  · simp

/-- A quotient is rounded to a double that is not negative, or to infinity. -/
theorem atLeast_nearest (num den : Nat) : AtLeast 0 (nearest false num den) := by
  have hle := nearestBits_le num den
  obtain ⟨b, hb, hunpack⟩ : ∃ b : BitVec Format.binary64.numBits, b.toNat = nearestBits num den ∧
      (nearest false num den).toModel.unpack = UnpackedFloat.unpack Format.binary64 b :=
    ⟨(UInt64.ofNat (nearestBits num den)).toBitVec, toNat_bits (hle.trans_lt (by decide)), unpack_ofBits_eq _⟩
  rw [← hb] at hle
  have hsign := unpackSign_of_lt (hle.trans_lt (show fieldMax * fieldUnit < signBit by decide))
  rcases unpack_cases b with hnan | hinf | ⟨m, e, -, -, hparts⟩
  · exact absurd hnan (unpack_ne_notANumber hle)
  · rw [hsign] at hinf
    exact .inr (hunpack.trans hinf)
  · rw [hsign] at hparts
    left
    constructor
    · show (nearest false num den).toModel.unpack.isFinite = true
      rw [hunpack, hparts, isFinite_ofParts]
    · rw [toRat, hunpack, hparts, rational_ofParts]
      show (0 : ℚ) ≤ m * 2 ^ e
      positivity

/-- Whole numbers of 53 digits are met exactly. -/
theorem unpack_nearest_whole {n : Nat} (hpos : 0 < n) (hn : n < 2 * fieldUnit) :
    ∃ m e, ∃ h : IsNormal m e, (nearest false n 1).toModel.unpack = .finite .positive m e h.pos ∧
      (m : ℚ) * 2 ^ e = n := by
  have hlog : n.log2 ≤ 52 := Nat.le_of_lt_succ ((Nat.log2_lt hpos.ne').mpr hn)
  obtain ⟨k, hk⟩ : ∃ k, n.log2 + k = 52 := ⟨52 - n.log2, by omega⟩
  have hunit : unitExponent n 1 = -(k : Int) := by
    have hlog1 : Nat.log2 1 = 0 := by decide
    have hself : 2 ^ n.log2 ≤ n := Nat.log2_self_le hpos.ne'
    simp only [unitExponent, scaled, hlog1, Nat.cast_zero, sub_zero, Int.toNat_natCast, one_mul, Nat.pow_eq,
      if_pos (Int.natCast_nonneg n.log2), hself, if_true]
    omega
  have hscaled : scaled n 1 (-(k : Int)) = (n * 2 ^ k, 1) := by
    rw [scaled]
    split_ifs with hle
    · obtain rfl : k = 0 := by omega
      simp
    · rw [neg_neg, Int.toNat_natCast, Nat.pow_eq]
  have hlog' : (n * 2 ^ k).log2 = 52 := by rw [← Nat.shiftLeft_eq, log2_shiftLeft hpos, hk]
  have hpos' : n * 2 ^ k ≠ 0 := by positivity
  have hfull : fieldUnit ≤ n * 2 ^ k := (Nat.le_log2 hpos').mp hlog'.ge
  have hfits : n * 2 ^ k < 2 * fieldUnit := (Nat.log2_lt (k := 53) hpos').mp (by omega)
  obtain ⟨fraction, hfraction⟩ := Nat.exists_eq_add_of_le hfull
  have heven : roundDivEven (n * 2 ^ k) 1 = n * 2 ^ k := by
    simp [roundDivEven, Nat.mod_one]
  obtain ⟨j, hj⟩ : ∃ j, k + j = 1074 := ⟨1074 - k, by omega⟩
  have hbits : nearestBits n 1 = fraction + (j + 1) * fieldUnit := by
    simp only [nearestBits, if_neg hpos.ne', hunit, hscaled, heven]
    have htop : (j + 2) * fieldUnit ≤ fieldMax * fieldUnit := Nat.mul_le_mul_right _ (by rw [fieldMax]; omega)
    rw [Nat.add_mul] at htop
    rw [hfraction, show (-(k : Int) + 1074).toNat = j by omega, min_eq_left (by omega), Nat.add_mul]
    omega
  refine ⟨fieldUnit + fraction, ((j + 1 : Nat) : Int) - 1075, ⟨by omega, by omega, by omega, by omega⟩, ?_, ?_⟩
  · rw [nearest, hbits, if_neg (by decide), Nat.add_zero]
    exact unpack_ofBits (by omega) (by rw [fieldMax]; omega) (by omega)
  · rw [← hfraction, show ((j + 1 : Nat) : Int) - 1075 = -(k : Int) by omega, zpow_neg, zpow_natCast]
    push_cast
    field_simp

theorem toRat_nearest (s : Sign) {n : Nat} (hn : n < 2 * fieldUnit) :
    (nearest (isNegative s) n 1).isFinite = true ∧ toRat (nearest (isNegative s) n 1) = signed s n := by
  have hpositive : (nearest false n 1).isFinite = true ∧ toRat (nearest false n 1) = n ∧
      (nearest false n 1).toModel.unpack.neg.isFinite = true ∧
      rational (nearest false n 1).toModel.unpack.neg = -n := by
    rcases Nat.eq_zero_or_pos n with rfl | hpos
    · have hzero : (nearest false 0 1).toModel.unpack = .zero .positive := rfl
      rw [toRat, hzero]
      exact ⟨rfl, Nat.cast_zero.symm, rfl, by rw [Nat.cast_zero, neg_zero]; rfl⟩
    · obtain ⟨m, e, h, hunpack, hvalue⟩ := unpack_nearest_whole hpos hn
      refine ⟨?_, ?_, ?_, ?_⟩
      · show (nearest false n 1).toModel.unpack.isFinite = true
        rw [hunpack]
        rfl
      · rw [toRat, hunpack]
        exact hvalue
      · rw [hunpack]
        rfl
      · rw [hunpack]
        exact congrArg Neg.neg hvalue
  obtain ⟨hfinite, hvalue, hfinite', hvalue'⟩ := hpositive
  cases s with
  | positive => exact ⟨hfinite, hvalue⟩
  | negative =>
    have hunpack := unpack_nearest_true n 1
    refine ⟨?_, ?_⟩
    · show (nearest true n 1).toModel.unpack.isFinite = true
      rw [hunpack]
      exact hfinite'
    · show rational (nearest true n 1).toModel.unpack = -n
      rw [hunpack]
      exact hvalue'

/-- A magnitude that is not above a whole number is not rounded above it. -/
theorem roundedMagnitude_le {b : Binary} {n : Nat} (h : b.magnitude ≤ n) : b.roundedMagnitude ≤ n := by
  obtain ⟨negative, m, e⟩ := b
  simp only [Binary.magnitude, Binary.roundedMagnitude] at *
  split_ifs with he
  · obtain ⟨k, rfl⟩ := Int.eq_ofNat_of_zero_le he
    rw [zpow_natCast] at h
    rw [Int.toNat_natCast, Nat.pow_eq]
    exact_mod_cast h
  · obtain ⟨k, rfl⟩ : ∃ k : Nat, e = -k := ⟨(-e).toNat, by omega⟩
    rw [zpow_neg, zpow_natCast, ← div_eq_mul_inv, div_le_iff₀ (by positivity)] at h
    have hm : m ≤ n * 2 ^ k := by exact_mod_cast h
    rw [neg_neg, Int.toNat_natCast, Nat.pow_eq, roundDivUp]
    have hpos := Nat.two_pow_pos k
    apply Nat.le_of_lt_succ
    rw [Nat.div_lt_iff_lt_mul (by omega)]
    nlinarith

/-- A finite double is rounded by its magnitude. -/
theorem exists_roundWhole {x : Float} (hx : x.isFinite = true) :
    ∃ s n p, 0 ≤ p ∧ toRat x = signed s p ∧ roundWhole x = nearest (isNegative s) n 1 ∧
      ∀ k : Nat, p ≤ k → n ≤ k := by
  obtain ⟨s, m, e, h, -, hxm⟩ := exists_parts hx
  have hvalue : Value.ofFloat x = .finite ⟨isNegative s, m, e⟩ := by
    rw [Value.ofFloat_eq, hxm]
    rcases Nat.eq_zero_or_pos m with rfl | hm
    · obtain rfl : e = -1074 := h.full.resolve_left (by decide)
      rw [ofParts_zero]
      rfl
    · rw [ofParts_pos s hm]
      rfl
  refine ⟨s, (⟨isNegative s, m, e⟩ : Binary).roundedMagnitude, m * 2 ^ e, by positivity, ?_, ?_, ?_⟩
  · rw [toRat, hxm, rational_ofParts]
  · rw [roundWhole, hvalue]
  · exact fun k hk => roundedMagnitude_le hk

/-- Rounding to a whole number does not pass one that is not positive. -/
theorem AtLeast.roundWhole {x : Float} {n : Nat} (h : AtLeast (-n) x) (hn : n < 2 * fieldUnit) :
    AtLeast (-n) (roundWhole x) := by
  have hnonpos : -(n : ℚ) ≤ 0 := neg_nonpos.mpr (Nat.cast_nonneg n)
  rcases h with ⟨hx, hle⟩ | hinf
  · obtain ⟨s, k, p, hp, hvalue, hround, hk⟩ := exists_roundWhole hx
    rw [hround]
    cases s with
    | positive => exact (atLeast_nearest k 1).mono hnonpos
    | negative =>
      rw [hvalue] at hle
      have hkn : k ≤ n := hk n (neg_le_neg_iff.mp hle)
      obtain ⟨hfinite, hnearest⟩ := toRat_nearest .negative (hkn.trans_lt hn)
      refine .inl ⟨hfinite, ?_⟩
      rw [hnearest]
      exact neg_le_neg (Nat.cast_le.mpr hkn)
  · right
    have hvalue : Value.ofFloat x = .infinite false := by
      rw [Value.ofFloat_eq, hinf]
      rfl
    rw [Decimal.roundWhole, hvalue]
    exact hinf

theorem roundWhole_between {x : Float} {n : Nat} (hx : x.isFinite = true) (hlow : 0 ≤ toRat x)
    (hhigh : toRat x ≤ n) (hn : n < 2 * fieldUnit) :
    (roundWhole x).isFinite = true ∧ 0 ≤ toRat (roundWhole x) ∧ toRat (roundWhole x) ≤ n := by
  obtain ⟨s, k, p, hp, hvalue, hround, hk⟩ := exists_roundWhole hx
  rw [hvalue] at hlow hhigh
  have hpn : p ≤ n := by
    cases s with
    | positive => exact hhigh
    | negative => exact (neg_nonneg.mp hlow).trans (Nat.cast_nonneg n)
  obtain ⟨hfinite, hnearest⟩ := toRat_nearest s ((hk n hpn).trans_lt hn)
  rw [hround, hnearest]
  refine ⟨hfinite, ?_⟩
  cases s with
  | positive => exact ⟨Nat.cast_nonneg k, Nat.cast_le.mpr (hk n hpn)⟩
  | negative =>
    -- only a zero is negative and not below zero
    have hzero : k = 0 := Nat.le_zero.mp (hk 0 (by rw [Nat.cast_zero]; exact neg_nonneg.mp hlow))
    rw [hzero, Nat.cast_zero, signed_zero]
    exact ⟨le_rfl, Nat.cast_nonneg n⟩

end Backtest.Decimal
