import Backtest.Decimal.Shortest
import Backtest.Proofs.Rational
import Backtest.Proofs.Rounding

/-!
# The double next to a quotient

`nearestBits` rounds a quotient of naturals to a double. `nearestBits_eq` says when the result is a given double:
when the quotient lies in its interval (`Interval.around`), which ends halfway to its neighbours and holds its ends
if the mantissa is even.

* `RoundsTo.roundDivEven`: a quotient next to a whole number is rounded to it.
* `unitExponent_of_roundsTo`: the quotient is rounded in the unit of the double, or in half of this unit, when it lies
  just below a power of two.
* `Value.bits_of_finite`: the bit pattern of a double, of which `nearestBits` gives all but the sign.
-/

namespace Backtest.Decimal

/-! ## Rounding to a whole number -/

/-- What is next to a natural number is rounded to it, and also what is halfway from it to the next one, if it is
even. -/
theorem roundDivEven_eq_of_near {a b m : Nat} (hb : 0 < b) (hlow : 2 * (b * m) ≤ 2 * a + b)
    (hhigh : 2 * a ≤ 2 * (b * m) + b)
    (htie : m % 2 = 0 ∨ 2 * (b * m) < 2 * a + b ∧ 2 * a < 2 * (b * m) + b) : roundDivEven a b = m := by
  have hmod : a % b < b := Nat.mod_lt a hb
  have hdiv : b * (a / b) + a % b = a := Nat.div_add_mod a b
  have hge : a / b ≤ m := by
    by_contra hlt
    have hmul : b * (m + 1) ≤ b * (a / b) := Nat.mul_le_mul_left b (not_le.mp hlt)
    rw [Nat.mul_succ] at hmul
    omega
  have hle : m ≤ a / b + 1 := by
    by_contra hlt
    have hmul : b * (a / b + 2) ≤ b * m := Nat.mul_le_mul_left b (by omega)
    rw [Nat.mul_add] at hmul
    omega
  rw [roundDivEven]
  obtain rfl | hm : m = a / b ∨ m = a / b + 1 := by omega
  · split_ifs <;> omega
  · rw [hm, Nat.mul_succ] at hlow hhigh htie
    split_ifs <;> omega

/-- A rational number lies halfway to the next whole number at most, and not that far if the whole number is odd. -/
structure RoundsTo (y : ℚ) (m : Nat) : Prop where
  low : m - 1 / 2 ≤ y
  high : y ≤ m + 1 / 2
  tie : m % 2 = 0 ∨ m - 1 / 2 < y ∧ y < m + 1 / 2

theorem RoundsTo.roundDivEven {a b m : Nat} (hb : 0 < b) (h : RoundsTo ((a : ℚ) / b) m) : roundDivEven a b = m := by
  have hb' : (0 : ℚ) < b := by exact_mod_cast hb
  have hlow : (m : ℚ) - 1 / 2 ≤ a / b ↔ 2 * (b * m) ≤ 2 * a + b := by
    rw [le_div_iff₀ hb', ← Nat.cast_le (α := ℚ)]
    push_cast
    constructor <;> intro h <;> linarith
  have hhigh : (a : ℚ) / b ≤ m + 1 / 2 ↔ 2 * a ≤ 2 * (b * m) + b := by
    rw [div_le_iff₀ hb', ← Nat.cast_le (α := ℚ)]
    push_cast
    constructor <;> intro h <;> linarith
  have hlow' : (m : ℚ) - 1 / 2 < a / b ↔ 2 * (b * m) < 2 * a + b := by
    rw [lt_div_iff₀ hb', ← Nat.cast_lt (α := ℚ)]
    push_cast
    constructor <;> intro h <;> linarith
  have hhigh' : (a : ℚ) / b < m + 1 / 2 ↔ 2 * a < 2 * (b * m) + b := by
    rw [div_lt_iff₀ hb', ← Nat.cast_lt (α := ℚ)]
    push_cast
    constructor <;> intro h <;> linarith
  apply roundDivEven_eq_of_near hb (hlow.mp h.low) (hhigh.mp h.high)
  exact h.tie.imp_right fun hs => ⟨hlow'.mp hs.1, hhigh'.mp hs.2⟩

/-! ## Rounding to a double -/

/-- The interval holds a number. -/
structure Interval.Contains (i : Interval) (x : ℚ) : Prop where
  low : i.low * 2 ^ i.scale ≤ x
  high : x ≤ i.high * 2 ^ i.scale
  edge : i.closed = true ∨ i.low * 2 ^ i.scale < x ∧ x < i.high * 2 ^ i.scale

/-- What lies in the interval of `m · 2 ^ q` is rounded to `m` in units of `2 ^ q`; below a power of two it is at most
a quarter of the unit away. -/
theorem roundsTo_of_contains {m : Nat} {q : Int} {x : ℚ} (hm : 0 < m) (h : (Interval.around m q).Contains x) :
    RoundsTo (x / 2 ^ q) m ∧ (m = fieldUnit → -1074 < q → (m : ℚ) - 1 / 4 ≤ x / 2 ^ q) := by
  have hpos : (0 : ℚ) < 2 ^ q := by positivity
  have hunit : (2 : ℚ) ^ (q - 2) = 2 ^ q / 4 := by
    rw [zpow_sub₀ two_ne_zero]
    norm_num
  obtain ⟨hlow, hhigh, hedge⟩ := h
  simp only [Interval.around, hunit] at hlow hhigh hedge
  have hbelow : ((if m = fieldUnit ∧ -1074 < q then 4 * m - 1 else 4 * m - 2 : Nat) : ℚ) =
      if m = fieldUnit ∧ -1074 < q then 4 * (m : ℚ) - 1 else 4 * m - 2 := by
    split_ifs
    · push_cast [Nat.cast_sub (show 1 ≤ 4 * m by omega)]
      rfl
    · push_cast [Nat.cast_sub (show 2 ≤ 4 * m by omega)]
      rfl
  rw [hbelow] at hlow hedge
  have hfine : (4 * (m : ℚ) - 2) ≤ if m = fieldUnit ∧ -1074 < q then 4 * (m : ℚ) - 1 else 4 * m - 2 := by
    split_ifs <;> linarith
  have hx : x = x / 2 ^ q * 2 ^ q := (div_mul_cancel₀ x hpos.ne').symm
  generalize x / 2 ^ q = y at *
  subst hx
  push_cast at hhigh hedge
  have hscale : ∀ c : ℚ, c * (2 ^ q / 4) = c / 4 * 2 ^ q := fun c => by ring
  simp only [hscale, mul_le_mul_iff_left₀ hpos, mul_lt_mul_iff_left₀ hpos] at hlow hhigh hedge
  refine ⟨⟨by linarith, by linarith, ?_⟩, ?_⟩
  · rcases hedge with hclosed | ⟨hlow', hhigh'⟩
    · exact .inl (by simpa using hclosed)
    · exact .inr ⟨by linarith, by linarith⟩
  · intro hpower hq
    rw [if_pos ⟨hpower, hq⟩] at hlow
    linarith

/-- The unit in which a quotient is rounded is that of the number that it is rounded to, or half of it just below a
power of two. -/
theorem unitExponent_of_roundsTo {m : Nat} {q : Int} (h : IsCanonical m q) {num den : Nat} (hnum : 0 < num)
    (hden : 0 < den) (hround : RoundsTo ((num : ℚ) / den / 2 ^ q) m) :
    unitExponent num den = q ∨
      unitExponent num den = q - 1 ∧ m = fieldUnit ∧ -1074 < q ∧ (num : ℚ) / den / 2 ^ q < 2 ^ 52 := by
  obtain ⟨hfits, hlow, hfull⟩ := h
  obtain ⟨e, he, hbelow, habove, -, -⟩ := exists_unitExponent hnum hden
  have hunit : (fieldUnit : ℚ) = 2 ^ 52 := by norm_num [fieldUnit]
  have hfits' : (m : ℚ) + 1 ≤ 2 * 2 ^ 52 := by
    rw [← hunit]
    exact_mod_cast hfits
  have hx : (0 : ℚ) < (num : ℚ) / den := by positivity
  have hmono : ∀ {a b : Int}, a ≤ b → (num : ℚ) / den / 2 ^ b ≤ num / den / 2 ^ a := fun hab =>
    div_le_div_of_nonneg_left hx.le (by positivity) (zpow_le_zpow_right₀ one_le_two hab)
  have hshift : ∀ a : Int, (num : ℚ) / den / 2 ^ (a - 1) = 2 * (num / den / 2 ^ a) := by
    intro a
    rw [zpow_sub_one₀ two_ne_zero]
    field_simp
  have hle : e ≤ q := by
    by_contra hlt
    have hhalf := hmono (show q ≤ e - 1 by omega)
    rw [hshift] at hhalf
    linarith [hround.high]
  rw [he]
  rcases hfull with hfull | rfl
  · have hfull' : (2 : ℚ) ^ 52 ≤ m := by
      rw [← hunit]
      exact_mod_cast hfull
    have hge : q - 1 ≤ e := by
      by_contra hlt
      have hdouble := hmono (show e ≤ q - 1 - 1 by omega)
      rw [hshift, hshift] at hdouble
      linarith [hround.low]
    obtain rfl | rfl : e = q ∨ e = q - 1 := by omega
    · exact .inl (max_eq_left hlow)
    rcases eq_or_lt_of_le hlow with rfl | hlow
    · exact .inl rfl
    rw [hshift] at habove
    have hbelow' : (num : ℚ) / den / 2 ^ q < 2 ^ 52 := by linarith
    have hpower : m < fieldUnit + 1 := by
      have hcast : (m : ℚ) < (fieldUnit + 1 : Nat) := by
        push_cast
        linarith [hround.low]
      exact_mod_cast hcast
    exact .inr ⟨max_eq_left (by omega), by omega, hlow, hbelow'⟩
  · exact .inl (max_eq_right hle)

/-- Just below a power of two the unit is half as large, and what is next to the power is twice as many of it. -/
theorem roundsTo_half {x : ℚ} {q : Int} (hquarter : (fieldUnit : ℚ) - 1 / 4 ≤ x / 2 ^ q)
    (hbelow : x / 2 ^ q < 2 ^ 52) : RoundsTo (x / 2 ^ (q - 1)) (2 * fieldUnit) := by
  have hdouble : x / 2 ^ (q - 1) = 2 * (x / 2 ^ q) := by
    rw [zpow_sub_one₀ two_ne_zero]
    field_simp
  have hfield : (fieldUnit : ℚ) = 2 ^ 52 := by norm_num [fieldUnit]
  rw [hfield] at hquarter
  rw [hdouble]
  constructor
  · push_cast
    rw [hfield]
    linarith
  · push_cast
    rw [hfield]
    linarith
  · exact .inl (by decide)

/-- What lies in the interval of a double is rounded to its bit pattern. -/
theorem nearestBits_eq {m : Nat} {q : Int} (h : IsCanonical m q) (hm : 0 < m) (hq : q ≤ 971) {num den : Nat}
    (hden : 0 < den) (hx : (Interval.around m q).Contains ((num : ℚ) / den)) :
    nearestBits num den = m + (q + 1074).toNat * fieldUnit := by
  obtain ⟨hround, hquarter⟩ := roundsTo_of_contains hm hx
  have hlow := h.low
  have hfits := h.fits
  have hnum : 0 < num := by
    by_contra hzero
    obtain rfl : num = 0 := by omega
    have hm' : (1 : ℚ) ≤ m := by exact_mod_cast hm
    have hhalf := hround.low
    rw [Nat.cast_zero, zero_div, zero_div] at hhalf
    linarith
  have htop : m + (q + 1074).toNat * fieldUnit ≤ fieldMax * fieldUnit := by
    have hmul : ((q + 1074).toNat + 2) * fieldUnit ≤ fieldMax * fieldUnit :=
      Nat.mul_le_mul_right _ (by rw [fieldMax]; omega)
    rw [Nat.add_mul] at hmul
    omega
  obtain ⟨hd, hscaled⟩ := scaled_div num hden (unitExponent num den)
  rw [nearestBits, if_neg hnum.ne']
  rcases unitExponent_of_roundsTo h hnum hden hround with hunit | ⟨hunit, rfl, hnormal, hbelow⟩
  · rw [hunit] at hd hscaled
    simp only [hunit, RoundsTo.roundDivEven hd (hscaled ▸ hround)]
    exact min_eq_left htop
  · rw [hunit] at hd hscaled
    have hhalf := roundsTo_half (hquarter rfl hnormal) hbelow
    simp only [hunit, RoundsTo.roundDivEven hd (hscaled ▸ hhalf)]
    have hbits : 2 * fieldUnit + (q - 1 + 1074).toNat * fieldUnit = fieldUnit + (q + 1074).toNat * fieldUnit := by
      rw [show (q + 1074).toNat = (q - 1 + 1074).toNat + 1 by omega]
      ring
    rw [hbits]
    exact min_eq_left htop

/-! ## Bit patterns -/

theorem Value.bits_of_finite {x : Float} {v : Binary} (h : Value.ofFloat x = .finite v) :
    IsCanonical v.mantissa v.exponent ∧ v.exponent ≤ 971 ∧
      x.toBits.toNat = v.mantissa + (v.exponent + 1074).toNat * fieldUnit + if v.negative then signBit else 0 := by
  have hlt : x.toBits.toNat < 2 ^ 64 := x.toBits.toBitVec.isLt
  simp only [Value.ofFloat] at h
  generalize x.toBits.toNat = bits at *
  have hsplit : bits = bits % fieldUnit + bits / fieldUnit % (fieldMax + 1) * fieldUnit +
      if decide (signBit ≤ bits) then signBit else 0 := by
    by_cases hneg : signBit ≤ bits
    · rw [if_pos (decide_eq_true hneg)]
      simp only [fieldUnit, fieldMax, signBit] at *
      omega
    · rw [if_neg (by simpa using hneg)]
      simp only [fieldUnit, fieldMax, signBit] at *
      omega
  have hfraction : bits % fieldUnit < fieldUnit := Nat.mod_lt _ (by decide)
  have hfield : bits / fieldUnit % (fieldMax + 1) < fieldMax + 1 := Nat.mod_lt _ (by decide)
  generalize bits % fieldUnit = fraction at *
  generalize bits / fieldUnit % (fieldMax + 1) = field at *
  split_ifs at h with htop hinf hbottom
  · rw [← Value.finite.inj h]
    refine ⟨⟨show fraction < 2 * fieldUnit by omega, le_rfl, .inr rfl⟩, show (-1074 : Int) ≤ 971 by decide, ?_⟩
    simp only [show ((-1074 : Int) + 1074).toNat = 0 by decide]
    rwa [hbottom] at hsplit
  · obtain ⟨k, rfl⟩ : ∃ k, field = k + 1 := ⟨field - 1, by omega⟩
    have hk : (((k + 1 : Nat) : Int) - 1075 + 1074).toNat = k := by omega
    rw [← Value.finite.inj h]
    refine ⟨⟨show fieldUnit + fraction < 2 * fieldUnit by omega, show (-1074 : Int) ≤ (k + 1 : Nat) - 1075 by omega,
      .inl (Nat.le_add_right _ _)⟩, ?_, ?_⟩
    · show (((k + 1 : Nat) : Int)) - 1075 ≤ 971
      rw [fieldMax] at hfield htop
      omega
    · simp only [hk]
      rw [Nat.succ_mul] at hsplit
      omega

theorem exists_finite {x : Float} (hx : x.isFinite = true) : ∃ v, Value.ofFloat x = .finite v := by
  obtain ⟨s, m, e, -, -, hparts⟩ := exists_parts hx
  rw [Value.ofFloat_eq, hparts, ofParts]
  split_ifs
  · exact ⟨_, rfl⟩
  · exact ⟨_, rfl⟩

/-- A double is the one of its bit pattern. -/
theorem eq_ofBits {x : Float} {n : Nat} (h : x.toBits.toNat = n) : Float.ofBits (UInt64.ofNat n) = x := by
  rw [← h, UInt64.ofNat_toNat, Float.ofBits_toBits]

end Backtest.Decimal
