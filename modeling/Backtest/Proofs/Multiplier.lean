import Backtest.Indicator
import Backtest.Proofs.Numerals
import Backtest.Proofs.Rounding
import Backtest.Rule.Token

/-!
# The multiplier of bands

A multiplier is written as a decimal with at most two places and read as a double, which is multiplied by a
hundred and rounded. For fewer than `2 ^ 32` hundredths the two roundings stay far below a half, so that
the hundredths come back (`hundredths?_hundredthsText`).
-/

namespace Backtest

open Decimal
open Float.Model
open Float.Model.UnpackedFloat

theorem unpack_zero : ((UInt64.ofNat 0).toFloat).toModel.unpack = .zero .positive := rfl

/-- A positive double is known by its value. -/
theorem unpack_of_value {x : Float} {m : Nat} {e : Int} (hm : 0 < m)
    (h : Value.ofFloat x = .finite ⟨false, m, e⟩) : x.toModel.unpack = .finite .positive m e hm := by
  rw [Value.ofFloat_eq] at h
  cases hx : x.toModel.unpack with
  | notANumber =>
    rw [hx] at h
    cases h
  | infinity s =>
    rw [hx] at h
    cases h
  | zero s =>
    simp only [hx, Value.ofUnpacked, Value.finite.injEq, Binary.mk.injEq] at h
    omega
  | finite s m' e' h' =>
    rw [hx] at h
    cases s with
    | negative => cases h
    | positive =>
      cases h
      rfl

theorem unpack_hundred :
    ((UInt64.ofNat 100).toFloat).toModel.unpack = .finite .positive (100 * 2 ^ 46) (-46) (by decide) :=
  unpack_of_value _ (by decide)

theorem Decimal.IsNormal.unit_le {m : Nat} {e : Int} (h : IsNormal m e) : (2 : ℚ) ^ 52 * 2 ^ e ≤ m * 2 ^ e := by
  have hfull : (2 : ℚ) ^ 52 ≤ m := by exact_mod_cast h.full
  exact mul_le_mul_of_nonneg_right hfull (by positivity)

/-- A number of hundredths of 32 bits lies far from the ends of the exponents. -/
theorem exponent_bounds {n m : Nat} {e : Int} (h : IsNormal m e) (hnear : IsNear m e ((n : ℚ) / 100))
    (hpos : 1 ≤ n) (hn : n < 2 ^ 32) : -100 ≤ e ∧ e < 0 := by
  have hunit : (0 : ℚ) < 2 ^ e := by positivity
  have hfits : (m : ℚ) < 2 ^ 53 := by exact_mod_cast h.fits
  have hlarge : (m : ℚ) * 2 ^ e ≤ 2 ^ 53 * 2 ^ e := mul_le_mul_of_nonneg_right hfits.le hunit.le
  have hn' : (n : ℚ) < 2 ^ 32 := by exact_mod_cast hn
  have hpos' : (1 : ℚ) ≤ n := by exact_mod_cast hpos
  have hbounds := abs_le.mp hnear
  constructor
  · by_contra hlt
    have htiny : (2 : ℚ) ^ e ≤ 1 / 2 ^ 100 := by
      calc (2 : ℚ) ^ e ≤ 2 ^ (-100 : Int) := zpow_le_zpow_right₀ one_le_two (by omega)
        _ = 1 / 2 ^ 100 := by norm_num
    linarith [hbounds.1]
  · by_contra hge
    have hone : (1 : ℚ) ≤ 2 ^ e := one_le_zpow₀ one_le_two (by omega)
    linarith [hbounds.2, h.unit_le]

/-- A hundred times a double, rounded to the next double. -/
theorem ofFloat_mul_hundred {x : Float} {m : Nat} {e : Int} (h : IsNormal m e)
    (hunpack : x.toModel.unpack = .finite .positive m e h.pos) (hlow : -100 ≤ e) (hhigh : e < 0) :
    ∃ m' e', IsNormal m' e' ∧ IsNear m' e' (m * 2 ^ e * 100) ∧
      Value.ofFloat (x * (UInt64.ofNat 100).toFloat) = .finite ⟨false, m', e'⟩ := by
  have hproduct : fieldUnit ≤ m * (100 * 2 ^ 46) := h.full.trans (Nat.le_mul_of_pos_right m (by decide))
  have hlog : (m * (100 * 2 ^ 46)).log2 < 106 := by
    rw [Nat.log2_lt (Nat.ne_of_gt (Nat.mul_pos h.pos (by decide)))]
    calc m * (100 * 2 ^ 46) < 2 * fieldUnit * (100 * 2 ^ 46) :=
          Nat.mul_lt_mul_of_pos_right h.fits (by decide)
      _ ≤ 2 ^ 106 := by decide
  obtain ⟨m', e', h', hround, hnear⟩ := roundWithAccuracy_near .positive hproduct
    (show -1074 ≤ e + -46 by omega) (by omega)
  have hscale : ((m * (100 * 2 ^ 46) : Nat) : ℚ) * 2 ^ (e + -46) = m * 2 ^ e * 100 := by
    rw [zpow_add₀ two_ne_zero]
    push_cast
    norm_num
    ring
  refine ⟨m', e', h', hscale ▸ hnear, ?_⟩
  have hmul : (x * (UInt64.ofNat 100).toFloat).toModel =
      Float.Model.pack (UnpackedFloat.mul Format.binary64 x.toModel.unpack
        ((UInt64.ofNat 100).toFloat).toModel.unpack) := rfl
  have hround' : UnpackedFloat.mul Format.binary64 (.finite .positive m e h.pos)
      (.finite .positive (100 * 2 ^ 46) (-46) (by decide)) = .finite .positive m' e' h'.pos := hround
  rw [Value.ofFloat_eq, hmul, hunpack, unpack_hundred, hround', unpack_pack h']
  rfl

/-- Two roundings by less than one unit each, the first of them a hundredfold. -/
theorem abs_sub_lt_half {u v x y : ℚ} {n : Nat} (hn : n < 2 ^ 32) (hx : 2 ^ 52 * u ≤ x)
    (hy : 2 ^ 52 * v ≤ y) (hxn : |x - n / 100| ≤ u) (hyx : |y - x * 100| ≤ v) : |y - n| < 1 / 2 := by
  have hn' : (n : ℚ) < 2 ^ 32 := by exact_mod_cast hn
  rw [abs_le] at hxn hyx
  rw [abs_lt]
  constructor <;> linarith [hxn.1, hxn.2, hyx.1, hyx.2]

/-- A double with a full mantissa next to a number of hundredths. -/
theorem hundredths?_of_unpack {cs : List Char} {x : Float} {n m : Nat} {e : Int} (hread : readFloat cs = .ok x)
    (h : IsNormal m e) (hunpack : x.toModel.unpack = .finite .positive m e h.pos)
    (hnear : IsNear m e ((n : ℚ) / 100)) (hpos : 1 ≤ n) (hn : n < 2 ^ 32) :
    Token.hundredths? cs = some n := by
  have hfinite : x.isFinite = true := by
    show x.toModel.unpack.isFinite = true
    rw [hunpack]
    rfl
  have hnonneg : ¬ x < (UInt64.ofNat 0).toFloat := by
    rw [lt_iff_unpack, hunpack, unpack_zero]
    exact Bool.false_ne_true
  obtain ⟨hlow, hhigh⟩ := exponent_bounds h hnear hpos hn
  obtain ⟨m', e', h', hnear', hvalue⟩ := ofFloat_mul_hundred h hunpack hlow hhigh
  have hnext : |(⟨false, m', e'⟩ : Binary).magnitude - n| < 1 / 2 :=
    abs_sub_lt_half hn h.unit_le h'.unit_le hnear hnear'
  simp only [Token.hundredths?, hread, hfinite, hnonneg, hvalue, roundedMagnitude_eq hnext, Bool.not_true,
    decide_false, Bool.or_self, Bool.false_eq_true, if_false]
  rw [min_eq_left (by omega)]

theorem hundredths?_nearest {cs : List Char} {n : Nat} (num den : Nat)
    (hread : readFloat cs = .ok (nearest false num den))
    (hquot : n * den = num * 100) (hden : 0 < den) (hden' : den ≤ 100) (hpos : 1 ≤ n) (hn : n < 2 ^ 32) :
    Token.hundredths? cs = some n := by
  have hnum : 0 < num := by
    have := Nat.mul_pos hpos hden
    omega
  have hlarge : num < 2 ^ 40 := by
    have := Nat.mul_le_mul_left n hden'
    omega
  have hlognum : num.log2 < 40 := (Nat.log2_lt hnum.ne').mpr hlarge
  have hlogden : den.log2 < 7 := (Nat.log2_lt hden.ne').mpr (by omega)
  obtain ⟨m, e, h, hunpack, hnear⟩ := unpack_nearest hnum hden (by omega) (by omega)
  have hratio : (num : ℚ) / den = n / 100 := by
    have hden₀ : (den : ℚ) ≠ 0 := by exact_mod_cast hden.ne'
    rw [div_eq_div_iff hden₀ (by norm_num)]
    exact_mod_cast hquot.symm
  rw [hratio] at hnear
  exact hundredths?_of_unpack hread h hunpack hnear hpos hn

/-- **The multiplier is read back** from its decimal. -/
theorem hundredths?_hundredthsText {n : Nat} (hn : n < 2 ^ 32) :
    Token.hundredths? (Indicator.hundredthsText n).toList = some n := by
  rcases Nat.eq_zero_or_pos n with rfl | hpos
  · decide +kernel
  have hdigits : ∀ {k : Nat}, ∀ c ∈ Nat.toDigits 10 k, c.isDigit = true := fun c hc => isDigit_toDigits hc
  have hne : Nat.toDigits 10 (n / 100) ≠ [] := Nat.toDigits_ne_nil
  have hone : ∀ {d}, d < 10 → (Nat.toDigits 10 d).length = 1 := by
    intro d hd
    rw [Nat.toDigits_of_lt_base hd]
    rfl
  have htens : (Nat.toDigits 10 (n / 10 % 10)).length = 1 := hone (Nat.mod_lt _ (by decide))
  have hones : (Nat.toDigits 10 (n % 10)).length = 1 := hone (Nat.mod_lt _ (by decide))
  have hpoint : ".".toList = ['.'] := rfl
  simp only [Indicator.hundredthsText]
  split_ifs with hwhole htenths
  · rw [toList_natText]
    have hread := readFloat_digits hdigits hne (natOfDigits_toDigits (n / 100)) (by omega) (by omega)
    exact hundredths?_nearest _ _ hread (by omega) (by omega) (by omega) hpos hn
  · have hvalue : Text.natOfDigits (Nat.toDigits 10 (n / 100) ++ Nat.toDigits 10 (n / 10 % 10)) = n / 10 := by
      rw [natOfDigits_append, natOfDigits_toDigits, natOfDigits_toDigits, htens]
      omega
    have hread := readFloat_point hdigits hdigits hne (by omega) hvalue (by omega) (by omega)
    rw [htens] at hread
    simp only [String.toList_append, toList_natText, hpoint, List.append_assoc, List.singleton_append]
    exact hundredths?_nearest _ _ hread (by omega) (by omega) (by omega) hpos hn
  · have hvalue : Text.natOfDigits (Nat.toDigits 10 (n / 100) ++
        (Nat.toDigits 10 (n / 10 % 10) ++ Nat.toDigits 10 (n % 10))) = n := by
      rw [natOfDigits_append, natOfDigits_append, natOfDigits_toDigits, natOfDigits_toDigits,
        natOfDigits_toDigits, List.length_append, htens, hones]
      omega
    have hplaces : ∀ c ∈ Nat.toDigits 10 (n / 10 % 10) ++ Nat.toDigits 10 (n % 10), c.isDigit = true := by
      intro c hc
      rcases List.mem_append.mp hc with hc | hc
      · exact hdigits c hc
      · exact hdigits c hc
    have hlength : (Nat.toDigits 10 (n / 10 % 10) ++ Nat.toDigits 10 (n % 10)).length = 2 := by
      rw [List.length_append, htens, hones]
    have hread := readFloat_point hdigits hplaces hne (by omega) hvalue (by omega) (by omega)
    rw [hlength] at hread
    simp only [String.toList_append, toList_natText, hpoint, List.append_assoc, List.singleton_append]
    exact hundredths?_nearest _ _ hread (by omega) (by omega) (by omega) hpos hn

end Backtest
