import Backtest.Proofs.Rational
import Backtest.Proofs.Rounding

/-!
# Arithmetic on doubles

A sum, difference, product or quotient of doubles is rounded. All that is used of the rounding here is that it
does not pass a double (`IsRounded`): if the exact result lies on one side of a double, so does the rounded
one. Bounds by numbers that are doubles themselves hence carry over from exact arithmetic
(`isRounded_add`, `isRounded_sub`, `isRounded_mul`, `isRounded_div`, `isRounded_toFloat`), also where the result
is too large and becomes infinite.

The language shifts a mantissa to the right and keeps two bits that tell what was shifted out. `Stands` says
which number these parts stand for, and `Next` what the rounded parts have to do with it.
-/

namespace Backtest.Decimal

open Float.Model
open Float.Model.UnpackedFloat

/-- A double on the same side of every double as a number, or equal to it. -/
structure IsRounded (x : Float) (q : ℚ) : Prop where
  atLeast : ∀ z : Float, z.isFinite = true → toRat z ≤ q → AtLeast (toRat z) x
  atMost : ∀ z : Float, z.isFinite = true → q ≤ toRat z → AtMost (toRat z) x

/-! ## Mantissas with two more bits -/

/-- The mantissa is what is left of a number in front of the point, and the two bits tell whether there is
anything behind it. -/
structure Stands (em : ExtendedMantissa) (q : ℚ) : Prop where
  low : em.mantissa ≤ q
  high : q < em.mantissa + 1
  exact_iff : em.roundBit = false ∧ em.stickyBit = false ↔ q = em.mantissa

theorem stands_exact (m : Nat) : Stands (.ofMantissaAndAccuracy m .exact) m :=
  ⟨le_rfl, lt_add_one _, ⟨fun _ => rfl, fun _ => ⟨rfl, rfl⟩⟩⟩

section

variable {em : ExtendedMantissa} {q : ℚ}

theorem Stands.shiftRightOne (h : Stands em q) : Stands em.shiftRightOne (q / 2) := by
  obtain ⟨m, round, sticky⟩ := em
  obtain ⟨hlow, hhigh, hexact⟩ := h
  simp only at hlow hhigh hexact
  have hm : (m : ℚ) = 2 * (m / 2 : Nat) + (m % 2 : Nat) := by exact_mod_cast (Nat.div_add_mod m 2).symm
  have hbit : ((m % 2 : Nat) : ℚ) ≤ 1 := by exact_mod_cast Nat.le_of_lt_succ (Nat.mod_lt m two_pos)
  have hbit' : (0 : ℚ) ≤ (m % 2 : Nat) := Nat.cast_nonneg _
  refine ⟨?_, ?_, ?_⟩
  · show ((m / 2 : Nat) : ℚ) ≤ q / 2
    linarith
  · show q / 2 < (m / 2 : Nat) + 1
    linarith
  · show (m % 2 != 0) = false ∧ (round || sticky) = false ↔ q / 2 = (m / 2 : Nat)
    rw [bne_eq_false_iff_eq, Bool.or_eq_false_iff, hexact]
    constructor
    · rintro ⟨hzero, rfl⟩
      rw [hzero, Nat.cast_zero] at hm
      linarith
    · intro hq
      have hzero : ((m % 2 : Nat) : ℚ) = 0 := by linarith
      exact ⟨Nat.cast_eq_zero.mp hzero, by linarith⟩

theorem Stands.shiftRight (h : Stands em q) (k : Nat) : Stands (em >>> k) (q / 2 ^ k) := by
  induction k with
  | zero =>
    rw [pow_zero, div_one]
    exact h
  | succ k ih =>
    rw [pow_succ, ← div_div]
    exact ih.shiftRightOne

/-- The rounded mantissa does not pass a whole number. -/
theorem Stands.rounded (h : Stands em q) :
    (∀ n : Nat, (n : ℚ) ≤ q → n ≤ em.roundedMantissa) ∧ ∀ n : Nat, q ≤ n → em.roundedMantissa ≤ n := by
  obtain ⟨hlow, hhigh, hexact⟩ := h
  have hround := roundedMantissa_eq em
  constructor
  · intro n hn
    have hlt : n < em.mantissa + 1 := by exact_mod_cast hn.trans_lt hhigh
    omega
  · intro n hn
    have hle : em.mantissa ≤ n := by exact_mod_cast hlow.trans hn
    by_cases hbits : em.roundBit = false ∧ em.stickyBit = false
    · have heq : em.roundedMantissa = em.mantissa := by
        obtain ⟨m, round, sticky⟩ := em
        obtain ⟨rfl, rfl⟩ := hbits
        rfl
      omega
    · have hlt : (em.mantissa : ℚ) < n :=
        (lt_of_le_of_ne hlow fun heq => hbits (hexact.mpr heq.symm)).trans_le hn
      have hlt' : em.mantissa < n := by exact_mod_cast hlt
      omega

end

/-! ## Parts next to a number -/

/-- Canonical parts that no canonical number separates from `q`. -/
structure Next (n : Nat) (e : Int) (q : ℚ) : Prop where
  canonical : IsCanonical n e
  above : ∀ m e', IsCanonical m e' → (m : ℚ) * 2 ^ e' ≤ q → (m : ℚ) * 2 ^ e' ≤ n * 2 ^ e
  below : ∀ m e', IsCanonical m e' → q ≤ (m : ℚ) * 2 ^ e' → (n : ℚ) * 2 ^ e ≤ m * 2 ^ e'

theorem Next.self {n : Nat} {e : Int} (h : IsCanonical n e) : Next n e (n * 2 ^ e) :=
  ⟨h, fun _ _ _ hle => hle, fun _ _ _ hle => hle⟩

/-- Parts next to a magnitude do not pass a double, nor does a double reach them if their exponent is too
high. -/
theorem Next.double {n : Nat} {e : Int} {q : ℚ} (h : Next n e q) (hq : 0 ≤ q) {z : Float}
    (hz : z.isFinite = true) :
    (toRat z ≤ q → toRat z ≤ n * 2 ^ e) ∧ (q ≤ toRat z → n * 2 ^ e ≤ toRat z ∧ e ≤ 971) := by
  obtain ⟨t, m, e', hm, he', hzm⟩ := exists_parts hz
  have hn : (0 : ℚ) ≤ n * 2 ^ e := by positivity
  have hp : (0 : ℚ) ≤ m * 2 ^ e' := by positivity
  have hbelow : q ≤ m * 2 ^ e' → (n : ℚ) * 2 ^ e ≤ m * 2 ^ e' ∧ e ≤ 971 := by
    intro hle
    refine ⟨h.below m e' hm hle, ?_⟩
    by_contra hhigh
    exact (magnitude_lt_of_lt hm h.canonical (by omega)).not_ge (h.below m e' hm hle)
  rw [toRat, hzm, rational_ofParts]
  cases t with
  | positive => exact ⟨h.above m e' hm, hbelow⟩
  | negative =>
    refine ⟨fun _ => (neg_nonpos.mpr hp).trans hn, fun hle => ?_⟩
    -- only a zero is negative and not below `q`
    have hzero : (m : ℚ) * 2 ^ e' = 0 := le_antisymm (neg_nonneg.mp (hq.trans hle)) hp
    obtain ⟨hle', hhigh⟩ := hbelow (hle.trans (by rw [hzero]; exact neg_zero.le))
    refine ⟨?_, hhigh⟩
    rw [hzero] at hle' ⊢
    exact hle'.trans neg_zero.ge

/-- Packing parts next to a number rounds it. -/
theorem Next.isRounded {n : Nat} {e : Int} {q : ℚ} (h : Next n e q) (hq : 0 ≤ q) (s : Sign) :
    IsRounded (.ofModel (Float.Model.pack (ofParts s n e))) (signed s q) := by
  have hunpack := unpack_pack_ofParts (s := s) h.canonical
  by_cases hhigh : e ≤ 971
  · rw [if_pos hhigh] at hunpack
    have hfinite : (Float.ofModel (Float.Model.pack (ofParts s n e))).isFinite = true := by
      show (Float.Model.pack (ofParts s n e)).unpack.isFinite = true
      rw [hunpack, isFinite_ofParts]
    have hvalue : toRat (.ofModel (Float.Model.pack (ofParts s n e))) = signed s (n * 2 ^ e) := by
      show rational (Float.Model.pack (ofParts s n e)).unpack = _
      rw [hunpack, rational_ofParts]
    cases s with
    | positive =>
      exact ⟨fun z hz hle => .inl ⟨hfinite, hvalue ▸ (h.double hq hz).1 hle⟩,
        fun z hz hle => .inl ⟨hfinite, hvalue ▸ ((h.double hq hz).2 hle).1⟩⟩
    | negative =>
      have hneg : ∀ z : Float, z.isFinite = true →
          (-toRat z ≤ q → -toRat z ≤ n * 2 ^ e) ∧ (q ≤ -toRat z → n * 2 ^ e ≤ -toRat z ∧ e ≤ 971) :=
        fun z hz => toRat_neg hz ▸ h.double hq (by rwa [isFinite_neg])
      exact ⟨fun z hz hle => .inl ⟨hfinite, hvalue ▸ le_neg_of_le_neg ((hneg z hz).2 (le_neg_of_le_neg hle)).1⟩,
        fun z hz hle => .inl ⟨hfinite, hvalue ▸ neg_le_of_neg_le ((hneg z hz).1 (neg_le_of_neg_le hle))⟩⟩
  · rw [if_neg hhigh] at hunpack
    cases s with
    | positive => exact ⟨fun z hz hle => .inr hunpack, fun z hz hle => absurd ((h.double hq hz).2 hle).2 hhigh⟩
    | negative =>
      refine ⟨fun z hz hle => absurd ?_ hhigh, fun z hz hle => .inr hunpack⟩
      have hle' : q ≤ toRat (-z) := by
        rw [toRat_neg hz]
        exact le_neg_of_le_neg hle
      exact ((h.double hq (by rwa [isFinite_neg])).2 hle').2

/-- Nothing happens to parts that are canonical. -/
theorem shiftToTargetExponent_of_le {m : Nat} {e : Int}
    (h : Format.binary64.targetExponent (totalExponent m e) ≤ e) :
    shiftToTargetExponent Format.binary64 m e .exact = (⟨m, false, false⟩, e) := by
  have hshift : (Format.binary64.targetExponent (totalExponent m e) - e).toNat = 0 := by omega
  rw [shiftToTargetExponent, shiftToExponent, hshift, Nat.cast_zero, add_zero]
  rfl

theorem targetExponent_eq (m : Nat) (e : Int) :
    Format.binary64.targetExponent (totalExponent m e) = max (m.log2 + e - 52) (-1074) := by
  simp only [Format.targetExponent, totalExponent, Format.mantissaBits, Format.minExponent]
  omega

/-- A rounded mantissa of at most 53 digits is in place, unless it has become one digit longer. -/
theorem carry_eq (s : Sign) {r : Nat} {t : Int} (hfits : r ≤ 2 * fieldUnit) (hlow : -1074 ≤ t)
    (hfull : fieldUnit ≤ r ∨ t = -1074) :
    ∃ n e, IsCanonical n e ∧ (n : ℚ) * 2 ^ e = r * 2 ^ t ∧
      (let (em, final) := shiftToTargetExponent Format.binary64 r t .exact
       if h : em.mantissa = 0 then UnpackedFloat.zero s
       else .finite s em.mantissa final (Nat.pos_of_ne_zero h)) = ofParts s n e := by
  rcases Nat.lt_or_eq_of_le hfits with hlt | rfl
  · have hlog : r.log2 ≤ 52 := by
      rcases Nat.eq_zero_or_pos r with rfl | hpos
      · decide
      · exact Nat.le_of_lt_succ ((Nat.log2_lt hpos.ne').mpr hlt)
    refine ⟨r, t, ⟨hlt, hlow, hfull⟩, rfl, ?_⟩
    rw [shiftToTargetExponent_of_le (by rw [targetExponent_eq]; omega)]
    rfl
  · have hlog : (2 * fieldUnit).log2 = 1 + 52 := by decide
    refine ⟨fieldUnit, t + 1, ⟨by decide, by omega, .inl le_rfl⟩, ?_, ?_⟩
    · rw [zpow_add_one₀ two_ne_zero]
      push_cast
      ring
    · rw [shiftToTargetExponent_eq hlog hlow]
      rfl

/-- A number with a higher exponent is a whole number of units. -/
theorem exists_units {m : Nat} {e t : Int} (h : t ≤ e) : ∃ n : Nat, (m : ℚ) * 2 ^ e = n * 2 ^ t := by
  obtain ⟨k, rfl⟩ : ∃ k : Nat, e = k + t := ⟨(e - t).toNat, by omega⟩
  refine ⟨m * 2 ^ k, ?_⟩
  rw [zpow_add₀ two_ne_zero, zpow_natCast]
  push_cast
  ring

/-- The unit in which parts are rounded: they have at most 53 digits in front of the point, and no less unless
the unit is the smallest one. -/
theorem target_bounds {m : Nat} {e t : Int} {q : ℚ} (hlow : (m : ℚ) ≤ q / 2 ^ e) (hhigh : q / 2 ^ e < m + 1)
    (ht : t = max (m.log2 + e - 52) (-1074)) (he : e ≤ t) :
    q / 2 ^ t ≤ (2 * fieldUnit : Nat) ∧ (t = -1074 ∨ (fieldUnit : ℚ) ≤ q / 2 ^ t) := by
  have hpos : (0 : ℚ) < 2 ^ e := by positivity
  have hpos' : (0 : ℚ) < 2 ^ t := by positivity
  have hunit : ((2 * fieldUnit : Nat) : ℚ) = 2 ^ (53 : Int) := by norm_num [fieldUnit]
  have hunit' : (fieldUnit : ℚ) = 2 ^ (52 : Int) := by norm_num [fieldUnit]
  rw [div_lt_iff₀ hpos] at hhigh
  rw [le_div_iff₀ hpos] at hlow
  constructor
  · have hm : (m : ℚ) + 1 ≤ 2 ^ ((m.log2 : Int) + 1) := by exact_mod_cast Nat.lt_log2_self (n := m)
    rw [div_le_iff₀ hpos', hunit, ← zpow_add₀ two_ne_zero]
    calc q ≤ ((m : ℚ) + 1) * 2 ^ e := hhigh.le
      _ ≤ 2 ^ ((m.log2 : Int) + 1) * 2 ^ e := mul_le_mul_of_nonneg_right hm hpos.le
      _ = 2 ^ ((m.log2 : Int) + 1 + e) := (zpow_add₀ two_ne_zero _ _).symm
      _ ≤ 2 ^ (53 + t) := zpow_le_zpow_right₀ one_le_two (by omega)
  · rcases eq_or_ne t (-1074) with heq | hne
    · exact .inl heq
    right
    have hm0 : m ≠ 0 := by
      rintro rfl
      rw [Nat.log2_zero] at ht
      omega
    have hm : (2 : ℚ) ^ (m.log2 : Int) ≤ m := by exact_mod_cast Nat.log2_self_le hm0
    rw [le_div_iff₀ hpos', hunit', ← zpow_add₀ two_ne_zero]
    calc (2 : ℚ) ^ (52 + t) = 2 ^ ((m.log2 : Int) + e) := congrArg _ (by omega)
      _ = 2 ^ (m.log2 : Int) * 2 ^ e := zpow_add₀ two_ne_zero _ _
      _ ≤ m * 2 ^ e := mul_le_mul_of_nonneg_right hm hpos.le
      _ ≤ q := hlow

/-- A mantissa that does not pass a whole number does not pass a canonical number either, as it is full or
counts the smallest units. -/
theorem next_of_rounded {r n : Nat} {t e : Int} {q : ℚ} (hn : IsCanonical n e)
    (hvalue : (n : ℚ) * 2 ^ e = r * 2 ^ t) (hlow : -1074 ≤ t)
    (habove : ∀ k : Nat, (k : ℚ) ≤ q / 2 ^ t → k ≤ r) (hbelow : ∀ k : Nat, q / 2 ^ t ≤ k → r ≤ k)
    (hfull : t = -1074 ∨ (fieldUnit : ℚ) ≤ q / 2 ^ t) : Next n e q := by
  have hpos : (0 : ℚ) < 2 ^ t := by positivity
  have hunder : ∀ m e', IsCanonical m e' → e' < t →
      (fieldUnit : ℚ) ≤ q / 2 ^ t ∧ (m : ℚ) * 2 ^ e' < fieldUnit * 2 ^ t := by
    intro m e' hm he'
    have hne : t ≠ -1074 := by
      have := hm.low
      omega
    exact ⟨hfull.resolve_left hne, magnitude_lt_of_lt hm ⟨by decide, hlow, .inl le_rfl⟩ he'⟩
  refine ⟨hn, fun m e' hm hle => ?_, fun m e' hm hle => ?_⟩
  · rw [hvalue]
    rcases lt_or_ge e' t with hlt | hge
    · obtain ⟨hq, hm'⟩ := hunder m e' hm hlt
      have hr : (fieldUnit : ℚ) ≤ r := by exact_mod_cast habove fieldUnit hq
      exact hm'.le.trans (mul_le_mul_of_nonneg_right hr hpos.le)
    · obtain ⟨k, hk⟩ := exists_units (m := m) hge
      rw [hk] at hle ⊢
      have hr : (k : ℚ) ≤ r := by exact_mod_cast habove k ((le_div_iff₀ hpos).mpr hle)
      exact mul_le_mul_of_nonneg_right hr hpos.le
  · rw [hvalue]
    rcases lt_or_ge e' t with hlt | hge
    · obtain ⟨hq, hm'⟩ := hunder m e' hm hlt
      exact absurd hle (not_le_of_gt (hm'.trans_le ((le_div_iff₀ hpos).mp hq)))
    · obtain ⟨k, hk⟩ := exists_units (m := m) hge
      rw [hk] at hle ⊢
      have hr : (r : ℚ) ≤ k := by exact_mod_cast hbelow k ((div_le_iff₀ hpos).mpr hle)
      exact mul_le_mul_of_nonneg_right hr hpos.le

/-- Rounding parts that are not too short gives parts next to the number they stand for. -/
theorem roundWithAccuracy_next (s : Sign) {m : Nat} {e : Int} {accuracy : Accuracy} {q : ℚ}
    (h : Stands (.ofMantissaAndAccuracy m accuracy) (q / 2 ^ e))
    (he : e ≤ Format.binary64.targetExponent (totalExponent m e)) :
    ∃ n e', Next n e' q ∧ roundWithAccuracy Format.binary64 s m e accuracy = ofParts s n e' := by
  obtain ⟨t, ht⟩ : ∃ t, t = Format.binary64.targetExponent (totalExponent m e) := ⟨_, rfl⟩
  obtain ⟨k, hk⟩ : ∃ k : Nat, t = e + k := ⟨(t - e).toNat, by omega⟩
  have hmantissa : (ExtendedMantissa.ofMantissaAndAccuracy m accuracy).mantissa = m := by
    cases accuracy with
    | exact => rfl
    | inexact o => cases o <;> rfl
  have hshift : shiftToTargetExponent Format.binary64 m e accuracy =
      (ExtendedMantissa.ofMantissaAndAccuracy m accuracy >>> k, t) := by
    rw [shiftToTargetExponent, shiftToExponent, ← ht, show (t - e).toNat = k by omega, hk]
  have hstands : Stands (ExtendedMantissa.ofMantissaAndAccuracy m accuracy >>> k) (q / 2 ^ t) := by
    have := h.shiftRight k
    rwa [div_div, ← zpow_natCast, ← zpow_add₀ two_ne_zero, ← hk] at this
  obtain ⟨habove, hbelow⟩ := hstands.rounded
  have hlow := h.low
  have hhigh := h.high
  rw [hmantissa] at hlow hhigh
  rw [← ht] at he
  rw [targetExponent_eq] at ht
  obtain ⟨hq, hfull⟩ := target_bounds hlow hhigh ht he
  obtain ⟨n, e', hn, hvalue, hround⟩ := carry_eq s (hbelow _ hq) (t := t) (by omega)
    (hfull.symm.imp_left (habove fieldUnit))
  refine ⟨n, e', next_of_rounded hn hvalue (by omega) habove hbelow hfull, ?_⟩
  rw [roundWithAccuracy, hshift]
  exact hround

/-! ## Rounding -/

section

variable {m : Nat} {e : Int}

theorem log2_shiftLeft {k : Nat} (hm : 0 < m) : (m <<< k).log2 = m.log2 + k := by
  have hself := Nat.log2_self_le hm.ne'
  have hlt := Nat.lt_log2_self (n := m)
  have hpos := Nat.two_pow_pos k
  rw [Nat.log2_eq_iff (by rw [Nat.shiftLeft_eq]; positivity), Nat.shiftLeft_eq, Nat.pow_add,
    show m.log2 + k + 1 = m.log2 + 1 + k by omega, Nat.pow_add]
  exact ⟨Nat.mul_le_mul_right _ hself, Nat.mul_lt_mul_of_pos_right hlt hpos⟩

theorem round_next (s : Sign) (hm : 0 < m) :
    ∃ n e', Next n e' (m * 2 ^ e) ∧ round Format.binary64 s m e = ofParts s n e' := by
  obtain ⟨k, hk⟩ : ∃ k : Nat, k = (e - Format.binary64.targetExponent (totalExponent m e)).toNat := ⟨_, rfl⟩
  have hlog : (m <<< k).log2 = m.log2 + k := log2_shiftLeft hm
  have hexact : (m : ℚ) * 2 ^ e / 2 ^ (e - k) = (m <<< k : Nat) := by
    rw [zpow_sub₀ two_ne_zero, zpow_natCast, Nat.shiftLeft_eq]
    push_cast
    field_simp
  have hround : round Format.binary64 s m e = roundWithAccuracy Format.binary64 s (m <<< k) (e - k) .exact := by
    rw [UnpackedFloat.round, decreaseExponent, ← hk]
  rw [hround]
  refine roundWithAccuracy_next s (hexact ▸ stands_exact _) ?_
  rw [targetExponent_eq] at hk ⊢
  rw [hlog]
  omega

theorem isRounded_of_next {u : UnpackedFloat} {s : Sign} {q : ℚ} (hq : 0 ≤ q)
    (h : ∃ n e', Next n e' q ∧ u = ofParts s n e') :
    IsRounded (.ofModel (Float.Model.pack u)) (signed s q) := by
  obtain ⟨n, e', hn, rfl⟩ := h
  exact hn.isRounded hq s

/-- Canonical parts that are packed are their own rounding. -/
theorem isRounded_pack (s : Sign) (h : IsCanonical m e) :
    IsRounded (.ofModel (Float.Model.pack (ofParts s m e))) (signed s (m * 2 ^ e)) :=
  (Next.self h).isRounded (by positivity) s

theorem isRounded_finite (s : Sign) (hm : 0 < m) (h : IsCanonical m e) :
    IsRounded (.ofModel (Float.Model.pack (.finite s m e hm))) (signed s (m * 2 ^ e)) := by
  rw [← ofParts_pos s hm]
  exact isRounded_pack s h

theorem isRounded_zero (s : Sign) : IsRounded (.ofModel (Float.Model.pack (.zero s))) 0 := by
  have hzero := isRounded_pack s (m := 0) (e := -1074) ⟨by decide, le_rfl, .inr rfl⟩
  rwa [ofParts_zero, Nat.cast_zero, zero_mul, signed_zero] at hzero

/-- Whole numbers of units are rounded. -/
theorem isRounded_normalize (n : Int) (e : Int) :
    IsRounded (.ofModel (Float.Model.pack (normalize Format.binary64 n e .positive))) (n * 2 ^ e) := by
  rw [UnpackedFloat.normalize]
  rcases lt_trichotomy n 0 with hlt | rfl | hgt
  · obtain ⟨m, rfl⟩ : ∃ m : Nat, n = -m := ⟨n.natAbs, by omega⟩
    have hneg : ((-(m : Int) : Int) : ℚ) * 2 ^ e = signed .negative (m * 2 ^ e) := by
      rw [signed]
      push_cast
      ring
    rw [compare_lt_iff_lt.mpr hlt, hneg, neg_neg, Int.toNat_natCast]
    exact isRounded_of_next (by positivity) (round_next .negative (by omega))
  · rw [compare_eq_iff_eq.mpr rfl, Int.cast_zero, zero_mul]
    exact isRounded_zero .positive
  · obtain ⟨m, rfl⟩ : ∃ m : Nat, n = m := ⟨n.toNat, by omega⟩
    rw [compare_gt_iff_gt.mpr hgt, Int.cast_natCast, Int.toNat_natCast]
    exact isRounded_of_next (by positivity) (round_next .positive (by omega))

end

/-! ## The four operations -/

theorem signed_apply (s : Sign) (n : Nat) : ((s.apply n : Int) : ℚ) = signed s n := by
  cases s
  · exact Int.cast_neg _
  · rfl

theorem signed_mul_right (s : Sign) (p q : ℚ) : signed s (p * q) = signed s p * q := by
  cases s
  · exact neg_mul_eq_neg_mul p q
  · rfl

theorem signed_mul (s t : Sign) (p q : ℚ) : signed (s * t) (p * q) = signed s p * signed t q := by
  cases s <;> cases t
  · exact (neg_mul_neg p q).symm
  · exact neg_mul_eq_neg_mul p q
  · exact neg_mul_eq_mul_neg p q
  · rfl

theorem signed_div (s t : Sign) (p q : ℚ) : signed (s / t) (p / q) = signed s p / signed t q := by
  cases s <;> cases t
  · exact (neg_div_neg_eq p q).symm
  · exact (neg_div q p).symm
  · exact (div_neg p).symm
  · rfl

/-- Numbers are put in a common unit. -/
theorem decreaseExponent_value (s : Sign) {m : Nat} {e c : Int} (h : c ≤ e) :
    ((s.apply (decreaseExponent m e c).1 : Int) : ℚ) * 2 ^ c = signed s (m * 2 ^ e) := by
  obtain ⟨k, rfl⟩ : ∃ k : Nat, e = c + k := ⟨(e - c).toNat, by omega⟩
  rw [signed_apply, ← signed_mul_right, decreaseExponent, show (c + k - c).toNat = k by omega,
    Nat.shiftLeft_eq, zpow_add₀ two_ne_zero, zpow_natCast]
  push_cast
  ring_nf

/-- An exact product is not too short, as one of the factors is full or both have the smallest unit. -/
theorem IsCanonical.mul_le_target {m m' : Nat} {e e' : Int} (h : IsCanonical m e) (h' : IsCanonical m' e')
    (hm : 0 < m) (hm' : 0 < m') :
    e + e' ≤ Format.binary64.targetExponent (totalExponent (m * m') (e + e')) := by
  rw [targetExponent_eq]
  by_cases hfull : fieldUnit ≤ m * m'
  · have : 52 ≤ (m * m').log2 := (Nat.le_log2 (Nat.mul_pos hm hm').ne').mpr hfull
    omega
  · have he : e = -1074 := h.full.resolve_left fun hle => hfull (hle.trans (Nat.le_mul_of_pos_right m hm'))
    have he' : e' = -1074 := h'.full.resolve_left fun hle => hfull (hle.trans (Nat.le_mul_of_pos_left m' hm))
    omega

/-- A quotient of whole numbers is cut to a whole number with the accuracy that belongs to it. -/
theorem stands_fraction (a : Nat) {b : Nat} (hb : 0 < b) :
    Stands (.ofMantissaAndAccuracy (a / b) (accuracyOfFraction (a % b) b)) ((a : ℚ) / b) := by
  have hpos : (0 : ℚ) < b := Nat.cast_pos.mpr hb
  have ha : (a : ℚ) = b * (a / b : Nat) + (a % b : Nat) := by exact_mod_cast (Nat.div_add_mod a b).symm
  have hrest : ((a % b : Nat) : ℚ) < b := by exact_mod_cast Nat.mod_lt a hb
  have hrest' : (0 : ℚ) ≤ (a % b : Nat) := Nat.cast_nonneg _
  rw [accuracyOfFraction]
  split_ifs with hzero
  · rw [hzero, Nat.cast_zero, add_zero] at ha
    rw [ha, mul_div_cancel_left₀ _ hpos.ne']
    exact stands_exact _
  · have hmantissa : ∀ o, (ExtendedMantissa.ofMantissaAndAccuracy (a / b) (.inexact o)).mantissa = a / b := by
      intro o
      cases o <;> rfl
    have hbits : ∀ o, ¬ ((ExtendedMantissa.ofMantissaAndAccuracy (a / b) (.inexact o)).roundBit = false ∧
        (ExtendedMantissa.ofMantissaAndAccuracy (a / b) (.inexact o)).stickyBit = false) := by
      rintro o ⟨hround, hsticky⟩
      cases o with
      | lt => cases hsticky
      | eq => cases hround
      | gt => cases hround
    refine ⟨?_, ?_, ?_⟩
    · rw [hmantissa, le_div_iff₀ hpos, mul_comm]
      linarith
    · rw [hmantissa, div_lt_iff₀ hpos, mul_comm]
      linarith
    · have hne : (a : ℚ) / b ≠ (a / b : Nat) := by
        rw [ne_eq, div_eq_iff hpos.ne', mul_comm]
        intro heq
        have : ((a % b : Nat) : ℚ) = 0 := by linarith
        exact hzero (Nat.cast_eq_zero.mp this)
      rw [hmantissa]
      exact ⟨fun h => absurd h (hbits _), fun heq => absurd heq hne⟩

/-- Dividing begins with so small a unit that the quotient is not too short. -/
theorem div_le_target {m m' k : Nat} {e e' t : Int} (hm : 0 < m) (hm' : 0 < m')
    (ht : t = min (e - e') (Format.binary64.targetExponent (totalExponent m e - totalExponent m' e')))
    (hk : e - e' = t + k) :
    t ≤ Format.binary64.targetExponent (totalExponent (m <<< k / m') t) := by
  rw [targetExponent_eq]
  rcases le_or_gt t (-1074) with hlow | hhigh
  · exact hlow.trans (le_max_right _ _)
  simp only [Format.targetExponent, totalExponent, Format.mantissaBits, Format.minExponent] at ht
  have hdigits : m'.log2 + 53 ≤ m.log2 + k := by omega
  have hfull : fieldUnit ≤ m <<< k / m' := by
    rw [Nat.le_div_iff_mul_le hm', Nat.shiftLeft_eq]
    calc fieldUnit * m' ≤ 2 ^ 52 * 2 ^ (m'.log2 + 1) := Nat.mul_le_mul_left _ Nat.lt_log2_self.le
      _ = 2 ^ (m'.log2 + 53) := by rw [← Nat.pow_add]; congr 1; omega
      _ ≤ 2 ^ (m.log2 + k) := Nat.pow_le_pow_right two_pos hdigits
      _ = 2 ^ m.log2 * 2 ^ k := Nat.pow_add ..
      _ ≤ m * 2 ^ k := Nat.mul_le_mul_right _ (Nat.log2_self_le hm.ne')
  have : 52 ≤ (m <<< k / m').log2 :=
    (Nat.le_log2 (Nat.ne_of_gt (Nat.lt_of_lt_of_le (by decide) hfull))).mpr hfull
  omega

section

variable {x y : Float} (hx : x.isFinite = true) (hy : y.isFinite = true)

include hx hy

theorem isRounded_add : IsRounded (x + y) (toRat x + toRat y) := by
  obtain ⟨s, m, e, h, -, hxm⟩ := exists_parts hx
  obtain ⟨t, m', e', h', -, hym⟩ := exists_parts hy
  show IsRounded (.ofModel (Float.Model.pack (x.toModel.unpack.add .binary64 y.toModel.unpack))) _
  rw [toRat, toRat, hxm, hym, rational_ofParts, rational_ofParts]
  rcases Nat.eq_zero_or_pos m with rfl | hm
  · simp only [ofParts_zero, Nat.cast_zero, zero_mul, signed_zero, zero_add]
    rcases Nat.eq_zero_or_pos m' with rfl | hm'
    · simp only [ofParts_zero, Nat.cast_zero, zero_mul, signed_zero]
      cases s <;> cases t <;> exact isRounded_zero _
    · rw [ofParts_pos t hm']
      exact isRounded_finite t hm' h'
  · rw [ofParts_pos s hm]
    rcases Nat.eq_zero_or_pos m' with rfl | hm'
    · simp only [ofParts_zero, Nat.cast_zero, zero_mul, signed_zero, add_zero]
      exact isRounded_finite s hm h
    · rw [ofParts_pos t hm', ← decreaseExponent_value s (min_le_left e e'),
        ← decreaseExponent_value t (min_le_right e e'), ← add_mul, ← Int.cast_add]
      exact isRounded_normalize _ _

theorem isRounded_sub : IsRounded (x - y) (toRat x - toRat y) := by
  obtain ⟨s, m, e, h, -, hxm⟩ := exists_parts hx
  obtain ⟨t, m', e', h', -, hym⟩ := exists_parts hy
  show IsRounded (.ofModel (Float.Model.pack (x.toModel.unpack.sub .binary64 y.toModel.unpack))) _
  rw [toRat, toRat, hxm, hym, rational_ofParts, rational_ofParts]
  rcases Nat.eq_zero_or_pos m with rfl | hm
  · simp only [ofParts_zero, Nat.cast_zero, zero_mul, signed_zero, zero_sub]
    rcases Nat.eq_zero_or_pos m' with rfl | hm'
    · simp only [ofParts_zero, Nat.cast_zero, zero_mul, signed_zero, neg_zero]
      cases s <;> cases t <;> exact isRounded_zero _
    · rw [ofParts_pos t hm', ← signed_neg]
      exact isRounded_finite (-t) hm' h'
  · rw [ofParts_pos s hm]
    rcases Nat.eq_zero_or_pos m' with rfl | hm'
    · simp only [ofParts_zero, Nat.cast_zero, zero_mul, signed_zero, sub_zero]
      exact isRounded_finite s hm h
    · rw [ofParts_pos t hm', ← decreaseExponent_value s (min_le_left e e'),
        ← decreaseExponent_value t (min_le_right e e'), ← sub_mul, ← Int.cast_sub]
      exact isRounded_normalize _ _

theorem isRounded_mul : IsRounded (x * y) (toRat x * toRat y) := by
  obtain ⟨s, m, e, h, -, hxm⟩ := exists_parts hx
  obtain ⟨t, m', e', h', -, hym⟩ := exists_parts hy
  show IsRounded (.ofModel (Float.Model.pack (x.toModel.unpack.mul .binary64 y.toModel.unpack))) _
  rw [toRat, toRat, hxm, hym, rational_ofParts, rational_ofParts]
  rcases Nat.eq_zero_or_pos m with rfl | hm
  · simp only [ofParts_zero, Nat.cast_zero, zero_mul, signed_zero]
    rcases Nat.eq_zero_or_pos m' with rfl | hm'
    · simp only [ofParts_zero]
      exact isRounded_zero _
    · rw [ofParts_pos t hm']
      exact isRounded_zero _
  · rw [ofParts_pos s hm]
    rcases Nat.eq_zero_or_pos m' with rfl | hm'
    · simp only [ofParts_zero, Nat.cast_zero, zero_mul, signed_zero, mul_zero]
      exact isRounded_zero _
    · have hexact : (m : ℚ) * 2 ^ e * (m' * 2 ^ e') / 2 ^ (e + e') = (m * m' : Nat) := by
        rw [zpow_add₀ two_ne_zero]
        push_cast
        field_simp
      rw [ofParts_pos t hm', ← signed_mul]
      exact isRounded_of_next (by positivity)
        (roundWithAccuracy_next _ (hexact ▸ stands_exact _) (h.mul_le_target h' hm hm'))

theorem isRounded_div (hne : toRat y ≠ 0) : IsRounded (x / y) (toRat x / toRat y) := by
  obtain ⟨s, m, e, h, -, hxm⟩ := exists_parts hx
  obtain ⟨t, m', e', h', -, hym⟩ := exists_parts hy
  show IsRounded (.ofModel (Float.Model.pack (x.toModel.unpack.div .binary64 y.toModel.unpack))) _
  rw [toRat, hym, rational_ofParts] at hne
  rw [toRat, toRat, hxm, hym, rational_ofParts, rational_ofParts]
  have hm' : 0 < m' := by
    rcases Nat.eq_zero_or_pos m' with rfl | hm'
    · rw [Nat.cast_zero, zero_mul, signed_zero] at hne
      exact absurd rfl hne
    · exact hm'
  rw [ofParts_pos t hm', ← signed_div]
  rcases Nat.eq_zero_or_pos m with rfl | hm
  · simp only [ofParts_zero, Nat.cast_zero, zero_mul, zero_div, signed_zero]
    exact isRounded_zero _
  · obtain ⟨c, hc⟩ : ∃ c, c = min (e - e')
        (Format.binary64.targetExponent (totalExponent m e - totalExponent m' e')) := ⟨_, rfl⟩
    obtain ⟨k, hk⟩ : ∃ k : Nat, e - e' = c + k := ⟨(e - e' - c).toNat, by omega⟩
    have hcore : divCore Format.binary64 m e m' e' =
        (m <<< k / m', c, accuracyOfFraction (m <<< k % m') m') := by
      rw [divCore, ← hc, show (e - e' - c).toNat = k by omega]
    have hquot : (m : ℚ) * 2 ^ e / (m' * 2 ^ e') / 2 ^ c = (m <<< k : Nat) / m' := by
      have hpow : (2 : ℚ) ^ e = 2 ^ e' * 2 ^ c * 2 ^ k := by
        rw [← zpow_natCast, ← zpow_add₀ two_ne_zero, ← zpow_add₀ two_ne_zero]
        congr 1
        omega
      rw [Nat.shiftLeft_eq, hpow]
      push_cast
      field_simp
    have hnext := roundWithAccuracy_next (s / t) (hquot ▸ stands_fraction (m <<< k) hm')
      (div_le_target hm hm' hc hk)
    rw [ofParts_pos s hm]
    refine isRounded_of_next (by positivity) ?_
    rw [UnpackedFloat.div, hcore]
    exact hnext

end

theorem isRounded_toFloat (n : UInt64) : IsRounded n.toFloat n.toNat := by
  have h := isRounded_normalize n.toNat 0
  rwa [zpow_zero, mul_one, Int.cast_natCast] at h

end Backtest.Decimal
