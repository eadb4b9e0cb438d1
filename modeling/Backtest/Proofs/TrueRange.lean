import Backtest.Proofs.FiniteReports
import Backtest.Proofs.Warmup

/-!
# The sign of the average true range

The true range of a bar with a bar before it is the largest of three numbers. Two of them are magnitudes, so it is never
negative, even if the high of the bar is below its low, which an accepted history may contain. The first bar has no bar
before it and counts with its high less its low, and that may be negative: `averageTrueRange_invertedBar`.

An average of period 1 forgets the first bar at once, since it is the last true range (`wilderStep_one`). For longer
periods every number that is not negative leaves an average that is not negative as it is (`atLeast_wilderStep`); the
average may overflow, but it does not become a NaN, as it is multiplied by a number from 1 on. So an average that is not
negative stays so (`atLeast_wilderAt`), and with a first bar the right way round it is so from the beginning:
`averageTrueRange_nonneg`.
-/

namespace Backtest

open Decimal (AtLeast toRat)

/-! ## Distances -/

/-- A finite number from zero on. -/
structure IsDistance (x : Float) : Prop where
  finite : x.isFinite = true
  nonneg : 0 ≤ toRat x

theorem IsDistance.atLeast {x : Float} (h : IsDistance x) : AtLeast 0 x := .inl ⟨h.finite, h.nonneg⟩

theorem Scalar.toRat_larger {x y : Float} (hx : x.isFinite = true) (hy : y.isFinite = true) :
    (larger x y).isFinite = true ∧ toRat (larger x y) = max (toRat x) (toRat y) := by
  rw [larger]
  split_ifs with hlt hself
  · exact ⟨hy, (max_eq_right ((Decimal.lt_iff_toRat hx hy).mp hlt).le).symm⟩
  · exact ⟨hx, (max_eq_left (not_lt.mp fun h => hlt ((Decimal.lt_iff_toRat hx hy).mpr h))).symm⟩
  · exact absurd ((Decimal.le_iff_toRat hx hx).mpr le_rfl) hself

theorem Bar.isDistance_of_isSound {x : Float} (h : isSound x = true) : IsDistance x := by
  obtain ⟨hfinite, hle⟩ := Bool.and_eq_true_iff.mp h
  have hzero := (Decimal.le_iff_toRat toRat_zero.1 hfinite).mp (of_decide_eq_true hle)
  exact ⟨hfinite, toRat_zero.2 ▸ hzero⟩

theorem Bar.isDistance_fields {b : Bar Float} (h : b.hasSoundFields = true) :
    IsDistance b.high ∧ IsDistance b.low ∧ IsDistance b.close := by
  simp only [hasSoundFields, Bool.and_eq_true] at h
  obtain ⟨⟨⟨⟨-, hhigh⟩, hlow⟩, hclose⟩, -⟩ := h
  exact ⟨isDistance_of_isSound hhigh, isDistance_of_isSound hlow, isDistance_of_isSound hclose⟩

/-- The largest of three numbers of which two are magnitudes. -/
theorem Bar.isDistance_trueRange {b : Bar Float} (hb : b.hasSoundFields = true) {previousClose : Float}
    (hprevious : IsDistance previousClose) : IsDistance (b.trueRange previousClose) := by
  obtain ⟨hhigh, hlow, -⟩ := isDistance_fields hb
  have hrange := Decimal.isFinite_sub hhigh.finite hlow.finite hhigh.nonneg hlow.nonneg
  obtain ⟨hup, -⟩ := Decimal.toRat_abs
    (Decimal.isFinite_sub hhigh.finite hprevious.finite hhigh.nonneg hprevious.nonneg)
  obtain ⟨hdown, hdown'⟩ := Decimal.toRat_abs
    (Decimal.isFinite_sub hlow.finite hprevious.finite hlow.nonneg hprevious.nonneg)
  obtain ⟨hfinite, hmax⟩ := Scalar.toRat_larger (Scalar.toRat_larger hrange hup).1 hdown
  refine ⟨hfinite, ?_⟩
  have hnonneg : 0 ≤ toRat (b.low - previousClose).abs := hdown'.symm ▸ abs_nonneg _
  exact hnonneg.trans ((le_max_right _ _).trans_eq hmax.symm)

namespace Indicator

/-! ## True ranges -/

/-- The first true range is the range of the first bar. -/
theorem trueRanges_first {bars : List (Bar Float)} {x : Float} (hx : (trueRanges bars)[0]? = some x) :
    ∃ b rest, bars = b :: rest ∧ x = b.high - b.low := by
  cases bars with
  | nil => cases hx
  | cons b rest => exact ⟨b, rest, rfl, (Option.some.inj hx).symm⟩

section

variable {bars : List (Bar Float)} (hbars : ∀ b ∈ bars, b.hasSoundFields = true)

include hbars

theorem isDistance_trueRanges {k : Nat} {x : Float} (hk : k ≠ 0) (hx : (trueRanges bars)[k]? = some x) :
    IsDistance x := by
  obtain ⟨k, rfl⟩ := Nat.exists_eq_succ_of_ne_zero hk
  cases bars with
  | nil => cases hx
  | cons b rest =>
    rw [trueRanges, List.getElem?_cons_succ, List.getElem?_zipWith_eq_some] at hx
    obtain ⟨p, c, hp, hc, rfl⟩ := hx
    exact Bar.isDistance_trueRange (hbars c (List.mem_cons_of_mem b (List.mem_of_getElem? hc)))
      (Bar.isDistance_fields (hbars p (List.mem_of_getElem? hp))).2.2

theorem isFinite_trueRanges {x : Float} (hx : x ∈ trueRanges bars) : x.isFinite = true := by
  obtain ⟨k, hk⟩ := List.mem_iff_getElem?.mp hx
  by_cases hzero : k = 0
  · obtain ⟨b, rest, rfl, rfl⟩ := trueRanges_first (hzero ▸ hk)
    obtain ⟨hhigh, hlow, -⟩ := Bar.isDistance_fields (hbars b List.mem_cons_self)
    exact Decimal.isFinite_sub hhigh.finite hlow.finite hhigh.nonneg hlow.nonneg
  · exact (isDistance_trueRanges hbars hzero hk).finite

/-- With a first bar the right way round, no true range is negative. -/
theorem forall_isDistance_trueRanges (hfirst : ∀ b, bars.head? = some b → b.low ≤ b.high) :
    ∀ x ∈ trueRanges bars, IsDistance x := by
  intro x hx
  obtain ⟨k, hk⟩ := List.mem_iff_getElem?.mp hx
  by_cases hzero : k = 0
  · obtain ⟨b, rest, rfl, rfl⟩ := trueRanges_first (hzero ▸ hk)
    have hfinite := isFinite_trueRanges hbars hx
    obtain ⟨hhigh, hlow, -⟩ := Bar.isDistance_fields (hbars b List.mem_cons_self)
    have hle := (Decimal.le_iff_toRat hlow.finite hhigh.finite).mp (hfirst b rfl)
    have hleast := (Decimal.isRounded_sub hhigh.finite hlow.finite).atLeast_int (n := 0) (by decide)
      (by rw [Int.cast_zero]; linarith)
    exact ⟨hfinite, by exact_mod_cast (hleast.resolve_right (Decimal.unpack_ne_infinity hfinite)).2⟩
  · exact isDistance_trueRanges hbars hzero hk

end

/-! ## Smoothed averages -/

/-- At period 1 the average is the newcomer. -/
theorem wilderStep_one {average x : Float} (haverage : average.isFinite = true) (hx : x.isFinite = true) :
    (wilderStep 1 average x).isFinite = true ∧ toRat (wilderStep 1 average x) = toRat x := by
  obtain ⟨hone, hone'⟩ := toRat_one
  have hsub := Decimal.isRounded_sub hone hone
  rw [sub_self, ← Int.cast_zero] at hsub
  obtain ⟨hweight, hweight'⟩ := hsub.eq_int (by decide)
  have hmul := Decimal.isRounded_mul haverage hweight
  rw [hweight', Int.cast_zero, mul_zero, ← Int.cast_zero] at hmul
  obtain ⟨hpast, hpast'⟩ := hmul.eq_int (by decide)
  have hadd := Decimal.isRounded_add hpast hx
  rw [hpast', Int.cast_zero, zero_add] at hadd
  obtain ⟨hsum, hsum'⟩ := hadd.eq_double hx
  have hdiv := Decimal.isRounded_div hsum hone (by rw [hone']; exact one_ne_zero)
  rw [hone', div_one, hsum'] at hdiv
  exact hdiv.eq_double hx

section

variable {n : Nat} (hn : n < 2 ^ 64)

include hn

theorem atLeast_div_period {x : Float} (hn0 : n ≠ 0) (h : AtLeast 0 x) : AtLeast 0 (x / ((n : Nat) : Float)) := by
  have hperiod : (1 : ℚ) ≤ toRat ((n : Nat) : Float) := by
    have hle := Decimal.le_toRat_toFloat hn (Nat.one_le_iff_ne_zero.mpr hn0) (by decide)
    rwa [Nat.cast_one] at hle
  have hdiv : AtLeast (0 : Int) (x / ((n : Nat) : Float)) :=
    h.div (Decimal.isFinite_toFloat _) (by decide) (by linarith) (by rw [Int.cast_zero, zero_div])
  exact_mod_cast hdiv

/-- What the average so far is multiplied by at a period from 2 on. -/
theorem weight_bounds (hn1 : 1 < n) :
    (((n : Nat) : Float) - ((1 : Nat) : Float)).isFinite = true ∧
      1 ≤ toRat (((n : Nat) : Float) - ((1 : Nat) : Float)) := by
  have hfinite : ((n : Nat) : Float).isFinite = true := Decimal.isFinite_toFloat _
  have hperiod : ((2 : Nat) : ℚ) ≤ toRat ((n : Nat) : Float) := Decimal.le_toRat_toFloat hn hn1 (by decide)
  have hround := Decimal.isRounded_sub hfinite toRat_one.1
  rw [toRat_one.2] at hround
  obtain ⟨hweight, hleast, -⟩ := (hround.atLeast_int (n := 1) (by decide) (by push_cast at *; linarith)).finite
    (hround.atMost _ hfinite (by linarith))
  exact ⟨hweight, by exact_mod_cast hleast⟩

/-- A newcomer that is not negative leaves the average so. -/
theorem atLeast_wilderStep (hn1 : 1 < n) {average x : Float} (haverage : AtLeast 0 average) (hx : IsDistance x) :
    AtLeast 0 (wilderStep n average x) := by
  obtain ⟨hweight, hone⟩ := weight_bounds hn hn1
  have hmul : AtLeast (0 : Int) (average * (((n : Nat) : Float) - ((1 : Nat) : Float))) :=
    haverage.mul hweight (by decide) (by linarith) (by rw [Int.cast_zero, zero_mul])
  have hadd : AtLeast (0 : Int) (average * (((n : Nat) : Float) - ((1 : Nat) : Float)) + x) :=
    hmul.add_right hx.finite (by decide) (by rw [Int.cast_zero, zero_add]; exact hx.nonneg)
  rw [Int.cast_zero] at hadd
  exact atLeast_div_period hn (by omega) hadd

end

theorem atLeast_sum {xs : List Float} (h : ∀ x ∈ xs, IsDistance x) {s : Float} (hs : AtLeast 0 s) :
    AtLeast 0 (xs.foldl (· + ·) s) := by
  induction xs generalizing s with
  | nil => exact hs
  | cons x xs ih =>
    obtain ⟨hx, hxs⟩ := List.forall_mem_cons.mp h
    have hadd : AtLeast (0 : Int) (s + x) :=
      hs.add_right hx.finite (by decide) (by rw [Int.cast_zero, zero_add]; exact hx.nonneg)
    rw [Int.cast_zero] at hadd
    exact ih hxs hadd

theorem atLeast_total {xs : List Float} (h : ∀ x ∈ xs, IsDistance x) : AtLeast 0 (Scalar.total xs) := by
  cases xs with
  | nil => exact .inl ⟨toRat_zero.1, toRat_zero.2.ge⟩
  | cons x xs =>
    obtain ⟨hx, hxs⟩ := List.forall_mem_cons.mp h
    exact atLeast_sum hxs hx.atLeast

theorem atLeast_wilderSeed {n : Nat} (hn : n < 2 ^ 64) (hn0 : n ≠ 0) {xs : List Float} (h : ∀ x ∈ xs, IsDistance x) :
    AtLeast 0 (wilderSeed n xs) := atLeast_div_period hn hn0 (atLeast_total h)

theorem isFinite_wilderAt_one {xs : List Float} (hxs : ∀ x ∈ xs, x.isFinite = true) {i : Nat} (h1 : 1 ≤ i)
    (hi : i ≤ xs.length) : (wilderAt 1 xs i).isFinite = true := by
  refine wilderAt_keeps (P := fun average => average.isFinite = true)
    (fun average k x _ hx haverage => (wilderStep_one haverage (hxs x (List.mem_of_getElem? hx))).1) le_rfl h1 hi ?_
  cases xs with
  | nil => exact absurd (h1.trans hi) (Nat.not_succ_le_zero 0)
  | cons x xs =>
    have hdiv := Decimal.isRounded_div (hxs x List.mem_cons_self) toRat_one.1 (by rw [toRat_one.2]; exact one_ne_zero)
    rw [toRat_one.2, div_one] at hdiv
    rw [wilderAt_self]
    exact (hdiv.eq_double (hxs x List.mem_cons_self)).1

/-- If only the first of some numbers may be negative, an average that is not negative stays so. -/
theorem atLeast_wilderAt {n : Nat} (hn : n < 2 ^ 64) (hn0 : n ≠ 0) {xs : List Float}
    (hfinite : ∀ x ∈ xs, x.isFinite = true)
    (hdistance : ∀ k x, k ≠ 0 → xs[k]? = some x → IsDistance x) {i j : Nat} (hi : n ≤ i) (hij : i ≤ j)
    (hj : j ≤ xs.length) (h : AtLeast 0 (wilderAt n xs i)) :
    AtLeast 0 (wilderAt n xs j) := by
  rcases Nat.lt_or_ge 1 n with hn1 | hn1
  · refine wilderAt_keeps (P := AtLeast 0) (fun average k x hk hx haverage => ?_) hi hij hj h
    exact atLeast_wilderStep hn hn1 haverage (hdistance k x (by omega) hx)
  · obtain rfl : n = 1 := by omega
    have hkeeps : IsDistance (wilderAt 1 xs j) := by
      refine wilderAt_keeps (P := IsDistance) (fun average k x hk hx haverage => ?_) hi hij hj ?_
      · have hx' := hdistance k x (by omega) hx
        obtain ⟨hstep, hstep'⟩ := wilderStep_one haverage.finite hx'.finite
        exact ⟨hstep, hstep' ▸ hx'.nonneg⟩
      · have hstart := isFinite_wilderAt_one hfinite hi (hij.trans hj)
        exact ⟨hstart, (h.resolve_right (Decimal.unpack_ne_infinity hstart)).2⟩
    exact hkeeps.atLeast

/-! ## The average true range -/

theorem reading?_atr_of_eq {n i : Nat} {bars : List (Bar Float)} {v : Float}
    (h : (averageTrueRange n bars)[i]? = some (some v)) : ((atr n).series bars).reading? i = some (.single v) :=
  (reading?_single_iff rfl).mpr ⟨v, rfl, h⟩

/-- What the average true range says at a bar. -/
theorem reading?_atr {n : Nat} {bars : List (Bar Float)} {i : Nat} {reading : Reading Float}
    (h : ((atr n).series bars).reading? i = some reading) :
    n ≠ 0 ∧ n ≤ i + 1 ∧ i + 1 ≤ (trueRanges bars).length ∧
      reading = .single (wilderAt n (trueRanges bars) (i + 1)) := by
  obtain ⟨v, rfl, hv⟩ := (reading?_single_iff rfl).mp h
  obtain ⟨hn0, hle, hi, rfl⟩ := eq_wilderAt hv
  exact ⟨hn0, hle, hi, rfl⟩

/-- **The sign of the average true range.** Of an accepted history only the first bar can make it negative, by a high
below its low. Behind a value that is not negative there is no negative one and no NaN; and if the high of the first bar
is not below its low, there is none at all. -/
theorem averageTrueRange_nonneg {bars : List (Bar Float)} (hbars : Bar.check bars = .ok ()) {n : Nat}
    (hn : n < 2 ^ 64) :
    (∀ (i j : Nat) (v w : Float), i ≤ j → ((atr n).series bars).reading? i = some (.single v) →
      ((atr n).series bars).reading? j = some (.single w) → 0 ≤ v → 0 ≤ w) ∧
    ((∀ b, bars.head? = some b → b.low ≤ b.high) → ∀ (i : Nat) (reading : Reading Float),
      ((atr n).series bars).reading? i = some reading → ∃ v, reading = .single v ∧ 0 ≤ v) := by
  have hsound := Bar.sound_of_checkFrom hbars
  have hfinite : ∀ x ∈ trueRanges bars, x.isFinite = true := fun x hx => isFinite_trueRanges hsound hx
  have hdistance : ∀ k x, k ≠ 0 → (trueRanges bars)[k]? = some x → IsDistance x :=
    fun k x hk hx => isDistance_trueRanges hsound hk hx
  constructor
  · intro i j v w hij hv hw hnonneg
    obtain ⟨hn0, hi, -, hvi⟩ := reading?_atr hv
    obtain ⟨-, -, hj, hwj⟩ := reading?_atr hw
    cases hvi
    cases hwj
    have hstart := Decimal.atLeast_of_le toRat_zero.1 hnonneg
    rw [toRat_zero.2] at hstart
    have hkeeps := atLeast_wilderAt hn hn0 hfinite hdistance hi (Nat.succ_le_succ hij) hj hstart
    exact hkeeps.le toRat_zero.1 toRat_zero.2.le
  · intro hfirst i reading hreading
    obtain ⟨hn0, hi, hlength, rfl⟩ := reading?_atr hreading
    have hall := forall_isDistance_trueRanges hsound hfirst
    have hseed : AtLeast 0 (wilderAt n (trueRanges bars) n) := by
      rw [wilderAt_self]
      exact atLeast_wilderSeed hn hn0 fun x hx => hall x (List.mem_of_mem_take hx)
    have hkeeps := atLeast_wilderAt hn hn0 hfinite hdistance le_rfl hi hlength hseed
    exact ⟨_, rfl, hkeeps.le toRat_zero.1 toRat_zero.2.le⟩

/-- A first bar the right way round, and behind it one with a high of 1 and a low of 4. -/
theorem averageTrueRange_nonneg_laterBar :
    ∃ bars : List (Bar Float), bars = [⟨⟨0⟩, 2, 3, 1, 2, 1⟩, ⟨⟨1⟩, 2, 1, 4, 3, 1⟩] ∧
      Bar.check bars = .ok () ∧ (∀ b, bars.head? = some b → b.low ≤ b.high) ∧ 2 < 2 ^ 64 ∧
      ∃ v, ((atr 2).series bars).reading? 1 = some (.single v) ∧ 0 ≤ v := by
  have hcheck : Bar.check [(⟨⟨0⟩, 2, 3, 1, 2, 1⟩ : Bar Float), ⟨⟨1⟩, 2, 1, 4, 3, 1⟩] = .ok () := by
    decide +kernel
  have hfirst : ∀ b, [(⟨⟨0⟩, 2, 3, 1, 2, 1⟩ : Bar Float), ⟨⟨1⟩, 2, 1, 4, 3, 1⟩].head? = some b →
      b.low ≤ b.high := by
    rintro b ⟨⟩
    decide +kernel
  have hreading : ((atr 2).series [(⟨⟨0⟩, 2, 3, 1, 2, 1⟩ : Bar Float), ⟨⟨1⟩, 2, 1, 4, 3, 1⟩]).reading? 1 =
      some (.single 2) := reading?_atr_of_eq (by decide +kernel)
  obtain ⟨v, hv, hnonneg⟩ := (averageTrueRange_nonneg hcheck (n := 2) (by decide)).2 hfirst 1 _ hreading
  exact ⟨_, rfl, hcheck, hfirst, by decide, v, hreading.trans (congrArg some hv), hnonneg⟩

/-- A bar with a high of 1 and a low of 2 is accepted, and has a range of -1. -/
theorem averageTrueRange_invertedBar :
    Bar.check [(⟨⟨0⟩, 1, 1, 2, 1, 1⟩ : Bar Float)] = .ok () ∧
      ((atr 1).series [(⟨⟨0⟩, 1, 1, 2, 1, 1⟩ : Bar Float)]).reading? 0 = some (.single (-1)) ∧
      ¬ (0 : Float) ≤ -1 :=
  ⟨by decide +kernel, reading?_atr_of_eq (by decide +kernel), by decide +kernel⟩

end Indicator

end Backtest
