import Backtest.Proofs.Bounds
import Backtest.Proofs.Consistency
import Backtest.Proofs.SoundRule

/-!
# Finite numbers in reports

The prices of a report are finite because the bars of a run were checked, and the returns of its trades because
a trade with another return is refused. All other numbers are computed from these, without a check.

* The win rate and the drawdown are ratios of a part to the whole, and remain percentages however they are
  rounded (`isPercentage_ratio`, `isPercentage_roundCents`). A drawdown from an infinite peak is a NaN, over
  which the drawdown so far wins (`Scalar.larger_of_notANumber`).
* The best and the worst return are among the returns (`Performance.isFinite_extreme`).
* The days of all trades are no more than the days of the calendar, so their sum is exact
  (`Performance.mean_ofInt`).
* The growth that is compounded, the sum of the returns, and a hundred times the return may overflow. The
  growth stays at least zero (`Performance.atLeast_equityFrom`), and a sum that becomes infinite remains that
  (`Performance.isNaN_mean`), so that none of them becomes a NaN.

`Report.ofHistory_numbers` puts this together. That a return overflows on the way to its two places is
`Report.ofHistory_returnOverflow`.
-/

namespace Backtest

open Decimal (AtLeast toRat)

/-! ## Growth -/

theorem toRat_natCast {n : Nat} (hn : n < 2 * Decimal.fieldUnit) :
    ((n : Nat) : Float).isFinite = true ∧ toRat ((n : Nat) : Float) = n := Decimal.toRat_toFloat hn

/-- The constants that performances are computed with. -/
theorem toRat_zero : ((0 : Nat) : Float).isFinite = true ∧ toRat ((0 : Nat) : Float) = 0 :=
  (toRat_natCast (by decide)).imp_right fun h => h.trans Nat.cast_zero

theorem toRat_one : ((1 : Nat) : Float).isFinite = true ∧ toRat ((1 : Nat) : Float) = 1 :=
  (toRat_natCast (by decide)).imp_right fun h => h.trans Nat.cast_one

theorem toRat_hundred : ((100 : Nat) : Float).isFinite = true ∧ toRat ((100 : Nat) : Float) = 100 :=
  (toRat_natCast (by decide)).imp_right fun h => h.trans (by norm_num)

namespace Performance

/-- What is cut off below zero is not negative, and not a NaN either. -/
theorem atLeast_larger_zero (x : Float) : AtLeast 0 (Scalar.larger x ((0 : Nat) : Float)) := by
  obtain ⟨hfinite, hzero⟩ := toRat_zero
  have hself : AtLeast 0 ((0 : Nat) : Float) := .inl ⟨hfinite, hzero.ge⟩
  rw [Scalar.larger]
  split_ifs with hlt hnum
  · exact hself
  · exact hzero ▸ Decimal.atLeast_of_not_lt hfinite hnum hlt
  · exact hself

theorem atLeast_compound (g r : Float) : AtLeast 0 (compound g r) := by
  rw [compound]
  split_ifs
  · exact .inl ⟨toRat_zero.1, toRat_zero.2.ge⟩
  · exact atLeast_larger_zero _

theorem atLeast_growth {g : Float} (hg : AtLeast 0 g) (trades : List (Trade Float)) :
    AtLeast 0 (growth g trades) := by
  rw [growth]
  induction trades generalizing g with
  | nil => exact hg
  | cons t trades ih => exact ih (atLeast_compound g t.returnPct)

theorem atLeast_percent {g : Float} (hg : AtLeast 0 g) : AtLeast (-100) (percent g) := by
  obtain ⟨hone, hone'⟩ := toRat_one
  obtain ⟨hhundred, hhundred'⟩ := toRat_hundred
  have hsub : AtLeast (-1 : Int) (g - ((1 : Nat) : Float)) := hg.sub hone (by decide) (by rw [hone']; norm_num)
  have hmul : AtLeast (-100 : Int) (percent g) :=
    hsub.mul hhundred (by decide) (by rw [hhundred']; norm_num) (by rw [hhundred']; norm_num)
  exact_mod_cast hmul

theorem atLeast_multiple {p : EquityPoint Float} (h : AtLeast (-100) p.returnPct) : AtLeast 0 p.multiple := by
  obtain ⟨hone, hone'⟩ := toRat_one
  obtain ⟨hhundred, hhundred'⟩ := toRat_hundred
  have hdiv : AtLeast (-1 : Int) (p.returnPct / ((100 : Nat) : Float)) :=
    h.div hhundred (by decide) (by rw [hhundred']; norm_num) (by rw [hhundred']; norm_num)
  have hadd : AtLeast (0 : Int) p.multiple := hdiv.add hone (by decide) (by rw [hone']; norm_num)
  exact_mod_cast hadd

theorem atLeast_equityFrom (bars : List (Bar Float)) {g : Float} (hg : AtLeast 0 g) (trades : List (Trade Float)) :
    ∀ p ∈ equityFrom g trades bars, AtLeast (-100) p.returnPct := by
  induction bars generalizing g trades with
  | nil => exact fun p hp => absurd hp List.not_mem_nil
  | cons b bars ih =>
    have hgrowth := atLeast_growth hg (trades.takeWhile fun t => t.exitDate = b.date)
    intro p hp
    rcases List.mem_cons.mp hp with rfl | hp
    · exact atLeast_percent hgrowth
    · exact ih hgrowth _ p hp

/-! ## Drawdowns -/

end Performance

/-- A finite percentage. -/
structure IsPercentage (x : Float) : Prop where
  finite : x.isFinite = true
  low : 0 ≤ toRat x
  high : toRat x ≤ 100

theorem isPercentage_zero : IsPercentage ((0 : Nat) : Float) :=
  ⟨toRat_zero.1, toRat_zero.2.ge, by rw [toRat_zero.2]; norm_num⟩

theorem Scalar.larger_eq (x y : Float) : larger x y = x ∨ larger x y = y := by
  rw [larger]
  split_ifs
  · exact .inr rfl
  · exact .inl rfl
  · exact .inr rfl

/-- A number wins over a NaN. -/
theorem Scalar.larger_of_notANumber {x y : Float} (hx : x.isFinite = true) (hy : y.toModel.unpack = .notANumber) :
    larger x y = x := by
  have hlt : ¬ x < y := by
    rw [Decimal.lt_iff_unpack, Float.Model.UnpackedFloat.lt, Decimal.compare_swap, hy]
    exact Bool.false_ne_true
  rw [larger, if_neg hlt, if_pos ((Decimal.le_iff_toRat hx hx).mpr le_rfl)]

theorem Scalar.smaller_eq (x y : Float) : smaller x y = x ∨ smaller x y = y := by
  rw [smaller]
  split_ifs
  · exact .inr rfl
  · exact .inl rfl
  · exact .inr rfl

/-- A part of something, in percent of it. -/
theorem isPercentage_ratio {x y : Float} (hx : x.isFinite = true) (hy : y.isFinite = true) (hlow : 0 ≤ toRat x)
    (hle : toRat x ≤ toRat y) (hpos : 0 < toRat y) : IsPercentage (x / y * ((100 : Nat) : Float)) := by
  obtain ⟨hhundred, hhundred'⟩ := toRat_hundred
  obtain ⟨hratio, hratio', hone⟩ := (Decimal.isRounded_div hx hy hpos.ne').between_zero (n := 1) (by decide)
    (by positivity) (by rw [Nat.cast_one, div_le_one hpos]; exact hle)
  rw [Nat.cast_one] at hone
  obtain ⟨hpct, hpct', hmost⟩ := (Decimal.isRounded_mul hratio hhundred).between_zero (n := 100) (by decide)
    (by rw [hhundred']; positivity) (by rw [hhundred']; push_cast; linarith)
  exact ⟨hpct, hpct', by exact_mod_cast hmost⟩

namespace Performance

/-- A fall from a finite peak is a percentage of it. -/
theorem isPercentage_fall {peak equity : Float} (hpeak : peak.isFinite = true) (hequity : equity.isFinite = true)
    (hlow : 0 ≤ toRat equity) (hlt : toRat equity < toRat peak) :
    IsPercentage ((peak - equity) / peak * ((100 : Nat) : Float)) := by
  have hsub := Decimal.isRounded_sub hpeak hequity
  obtain ⟨hfall, hfall', hmost⟩ := (hsub.atLeast_int (n := 0) (by decide) (by rw [Int.cast_zero]; linarith)).finite
    (hsub.atMost peak hpeak (by linarith))
  rw [Int.cast_zero] at hfall'
  exact isPercentage_ratio hfall hpeak hfall' hmost (hlow.trans_lt hlt)

/-- A fall from an infinite peak is a NaN. -/
theorem fall_of_infinite {peak equity : Float} (hpeak : peak.toModel.unpack = .infinity .positive)
    (hequity : equity.isFinite = true) :
    ((peak - equity) / peak * ((100 : Nat) : Float)).toModel.unpack = .notANumber := by
  have hsub := Decimal.infinity_sub hpeak hequity
  have hdiv : ((peak - equity) / peak).toModel.unpack = .notANumber := by
    show (Float.Model.pack ((peak - equity).toModel.unpack.div .binary64 peak.toModel.unpack)).unpack = _
    rw [hsub, hpeak]
    rfl
  show (Float.Model.pack (((peak - equity) / peak).toModel.unpack.mul .binary64 _)).unpack = _
  rw [hdiv]
  rfl

/-- What a walk remembers stays in bounds. -/
structure Walk.IsBounded (w : Walk Float) : Prop where
  peak : AtLeast 0 w.peak
  deepest : IsPercentage w.deepest

theorem Walk.IsBounded.step {w : Walk Float} (hw : w.IsBounded) {equity : Float} (h : AtLeast 0 equity) :
    (w.step equity).IsBounded := by
  rw [Walk.step]
  split_ifs with hle hpos
  · exact ⟨h, hw.deepest⟩
  · refine ⟨hw.peak, ?_⟩
    show IsPercentage (Scalar.larger w.deepest ((w.peak - equity) / w.peak * ((100 : Nat) : Float)))
    obtain ⟨hfinite, hlow⟩ : equity.isFinite = true ∧ 0 ≤ toRat equity :=
      h.resolve_right fun hinf => hle (hw.peak.le_infinity hinf)
    rcases hw.peak with ⟨hpeak, -⟩ | hinf
    · have hlt := not_le.mp fun hle' => hle ((Decimal.le_iff_toRat hpeak hfinite).mpr hle')
      rcases Scalar.larger_eq w.deepest ((w.peak - equity) / w.peak * ((100 : Nat) : Float)) with heq | heq
      · rw [heq]
        exact hw.deepest
      · rw [heq]
        exact isPercentage_fall hpeak hfinite hlow hlt
    · rw [Scalar.larger_of_notANumber hw.deepest.finite (fall_of_infinite hinf hfinite)]
      exact hw.deepest
  · exact hw

theorem Walk.IsBounded.foldl {w : Walk Float} (hw : w.IsBounded) {points : List (EquityPoint Float)}
    (h : ∀ p ∈ points, AtLeast (-100) p.returnPct) :
    (points.foldl (fun w p => w.step p.multiple) w).IsBounded := by
  induction points generalizing w with
  | nil => exact hw
  | cons p points ih =>
    obtain ⟨hp, hpoints⟩ := List.forall_mem_cons.mp h
    exact ih (hw.step (atLeast_multiple hp)) hpoints

theorem isPercentage_drawdown {points : List (EquityPoint Float)}
    (h : ∀ p ∈ points, AtLeast (-100) p.returnPct) : IsPercentage (drawdown points).pct := by
  cases points with
  | nil => exact isPercentage_zero
  | cons p rest =>
    have hbegin : Walk.IsBounded ⟨p.multiple, ((0 : Nat) : Float), 0, 0⟩ :=
      ⟨atLeast_multiple (h p List.mem_cons_self), isPercentage_zero⟩
    exact (hbegin.foldl h).deepest

/-! ## Averages and extremes -/

theorem isFinite_extreme {choose : Float → Float → Float} (hchoose : ∀ x y, choose x y = x ∨ choose x y = y)
    {xs : List Float} (h : ∀ x ∈ xs, x.isFinite = true) : (extreme choose xs).isFinite = true := by
  cases xs with
  | nil => exact toRat_zero.1
  | cons x xs =>
    rw [extreme]
    induction xs generalizing x with
    | nil => exact h x List.mem_cons_self
    | cons y xs ih =>
      rw [List.foldl_cons]
      apply ih
      intro z hz
      rcases List.mem_cons.mp hz with rfl | hz
      · rcases hchoose x y with heq | heq
        · rw [heq]
          exact h x List.mem_cons_self
        · rw [heq]
          exact h y (by simp)
      · exact h z (by simp [hz])

/-- A sum of finite numbers that has become infinite remains that. -/
theorem isNaN_sum {xs : List Float} (h : ∀ x ∈ xs, x.isFinite = true) {s : Float} (hs : s.isNaN = false) :
    (xs.foldl (· + ·) s).isNaN = false := by
  induction xs generalizing s with
  | nil => exact hs
  | cons x xs ih =>
    obtain ⟨hx, hxs⟩ := List.forall_mem_cons.mp h
    exact ih hxs (Decimal.isNaN_add hs hx)

/-- The average of finite numbers may be infinite, but it is not a NaN. -/
theorem isNaN_mean {xs : List Float} (hlength : xs.length < 2 * Decimal.fieldUnit)
    (h : ∀ x ∈ xs, x.isFinite = true) : (Scalar.mean xs).isNaN = false := by
  rw [Scalar.mean]
  split_ifs with hempty
  · rfl
  · obtain ⟨hfinite, hvalue⟩ := toRat_natCast hlength
    refine Decimal.isNaN_div (isNaN_sum h rfl) hfinite ?_
    rw [hvalue, Nat.cast_pos]
    exact List.length_pos_iff.mpr fun hnil => hempty (by rw [hnil]; rfl)

/-- Whole numbers are added without rounding while the sum has 53 digits. -/
theorem foldl_ofInt (days : List Int) (hdays : ∀ d ∈ days, 0 ≤ d) :
    ∀ (s : Float) (k : Int), s.isFinite = true → toRat s = k → 0 ≤ k →
      k + days.sum < 2 * Decimal.fieldUnit →
      ((days.map Scalar.ofInt).foldl (· + ·) s).isFinite = true ∧
        toRat ((days.map Scalar.ofInt).foldl (· + ·) s) = (k + days.sum : Int) := by
  induction days with
  | nil =>
    intro s k hs hk _ _
    exact ⟨hs, by rw [List.sum_nil, add_zero]; exact hk⟩
  | cons d days ih =>
    intro s k hs hk hk0 hsum
    obtain ⟨hd, hdays⟩ := List.forall_mem_cons.mp hdays
    have hrest : 0 ≤ days.sum := List.sum_nonneg hdays
    rw [List.sum_cons] at hsum ⊢
    have hday : (Scalar.ofInt d : Float).isFinite = true ∧ toRat (Scalar.ofInt d : Float) = d := by
      obtain ⟨hfinite, hvalue⟩ := toRat_natCast (n := d.natAbs) (by omega)
      rw [Scalar.ofInt, if_neg (not_lt.mpr hd)]
      refine ⟨hfinite, hvalue.trans ?_⟩
      rw [← Int.cast_natCast, Int.natAbs_of_nonneg hd]
    have hadd := Decimal.isRounded_add hs hday.1
    rw [hk, hday.2, ← Int.cast_add] at hadd
    obtain ⟨hfinite, hvalue⟩ := hadd.eq_int (by omega)
    rw [← add_assoc]
    exact ih hdays _ (k + d) hfinite hvalue (by omega) (by omega)

/-- The average of whole numbers that are not negative and not too large. -/
theorem mean_ofInt {days : List Int} (hdays : ∀ d ∈ days, 0 ≤ d)
    (hlength : days.length < 2 * Decimal.fieldUnit) (hsum : days.sum < 2 * Decimal.fieldUnit) :
    (Scalar.mean (days.map (Scalar.ofInt (α := Float)))).isFinite = true ∧
      0 ≤ toRat (Scalar.mean (days.map (Scalar.ofInt (α := Float)))) := by
  rw [Scalar.mean]
  split_ifs with hempty
  · exact ⟨toRat_zero.1, toRat_zero.2.ge⟩
  · obtain ⟨hfinite, hvalue⟩ := foldl_ofInt days hdays _ 0 toRat_zero.1 (toRat_zero.2.trans Int.cast_zero.symm)
      le_rfl (by omega)
    obtain ⟨hcount, hcount'⟩ := toRat_natCast (n := (days.map (Scalar.ofInt (α := Float))).length)
      (by rwa [List.length_map])
    have hpos : (1 : ℚ) ≤ ((days.map (Scalar.ofInt (α := Float))).length : ℚ) := by
      have : 0 < (days.map (Scalar.ofInt (α := Float))).length :=
        List.length_pos_iff.mpr fun hnil => hempty (by rw [hnil]; rfl)
      exact_mod_cast this
    have hnonneg : (0 : ℚ) ≤ (days.sum : Int) := by exact_mod_cast List.sum_nonneg hdays
    rw [zero_add] at hvalue
    have hdiv := Decimal.isRounded_div hfinite hcount (by rw [hcount']; positivity)
    rw [hvalue, hcount'] at hdiv
    obtain ⟨k, hk⟩ := Int.eq_ofNat_of_zero_le (List.sum_nonneg hdays)
    rw [hk] at hdiv hnonneg
    obtain ⟨hmean, hmean', -⟩ := hdiv.between_zero (n := k) (by omega) (by positivity)
      (by exact_mod_cast div_le_self hnonneg hpos)
    exact ⟨hmean, hmean'⟩

/-- A share is a percentage. -/
theorem isPercentage_winRate {trades : List (Trade Float)} (hlength : trades.length < 2 * Decimal.fieldUnit) :
    IsPercentage (winRate trades) := by
  rw [winRate]
  split_ifs with hempty
  · exact isPercentage_zero
  · have hle : trades.countP (·.isWin) ≤ trades.length := List.countP_le_length
    obtain ⟨hwins, hwins'⟩ := toRat_natCast (hle.trans_lt hlength)
    obtain ⟨hall, hall'⟩ := toRat_natCast hlength
    have hpos : 0 < trades.length := List.length_pos_iff.mpr fun hnil => hempty (by rw [hnil]; rfl)
    exact isPercentage_ratio hwins hall (by rw [hwins']; positivity) (by rw [hwins', hall']; exact_mod_cast hle)
      (by rw [hall']; exact_mod_cast hpos)

end Performance

/-! ## Rounding to two places -/

theorem roundCents_eq (x : Float) :
    roundCents x = Decimal.roundWhole (x * ((100 : Nat) : Float)) / ((100 : Nat) : Float) := rfl

theorem isPercentage_roundCents {x : Float} (h : IsPercentage x) : IsPercentage (roundCents x) := by
  obtain ⟨hhundred, hhundred'⟩ := toRat_hundred
  obtain ⟨hfinite, hlow, hhigh⟩ := h
  rw [roundCents_eq]
  generalize ((100 : Nat) : Float) = hundred at *
  obtain ⟨hmul, hmul', hmulmost⟩ := (Decimal.isRounded_mul hfinite hhundred).between_zero (n := 10000) (by decide)
    (by rw [hhundred']; positivity) (by rw [hhundred']; push_cast; linarith)
  obtain ⟨hwhole, hwhole', hwholemost⟩ := Decimal.roundWhole_between hmul hmul' hmulmost (by decide)
  push_cast at hwholemost
  have hquotient := Decimal.isRounded_div hwhole hhundred (by rw [hhundred']; norm_num)
  obtain ⟨hdiv, hdiv', hdivmost⟩ := hquotient.between_zero (n := 100) (by decide)
    (by rw [hhundred']; positivity) (by rw [hhundred']; push_cast; linarith)
  exact ⟨hdiv, hdiv', by exact_mod_cast hdivmost⟩

theorem atLeast_roundCents {x : Float} (h : AtLeast (-100) x) : AtLeast (-100) (roundCents x) := by
  obtain ⟨hhundred, hhundred'⟩ := toRat_hundred
  rw [roundCents_eq]
  generalize ((100 : Nat) : Float) = hundred at *
  have hmul : AtLeast (-10000 : Int) (x * hundred) :=
    h.mul hhundred (by decide) (by rw [hhundred']; norm_num) (by rw [hhundred']; norm_num)
  have hwhole : AtLeast (-(10000 : Nat)) (Decimal.roundWhole (x * hundred)) :=
    AtLeast.roundWhole (by exact_mod_cast hmul) (by decide)
  have hdiv : AtLeast (-100 : Int) (Decimal.roundWhole (x * hundred) / hundred) :=
    hwhole.div hhundred (by decide) (by rw [hhundred']; norm_num) (by rw [hhundred']; norm_num)
  exact_mod_cast hdiv

/-! ## Days -/

/-- A date in the years of the calendar. -/
def Date.InCalendar (d : Date) : Prop :=
  ofCivil ⟨minYear, 1, 1⟩ ≤ d ∧ d ≤ ofCivil ⟨maxYear, 12, 31⟩

/-- Trades in the order of time are held for no more days than there are. -/
theorem sum_holdingDays_le {hi : Date} :
    ∀ (trades : List (Trade Float)) (lo : Date), (∀ t ∈ trades, t.entryDate < t.exitDate) →
      (trades.Pairwise fun t t' => t.exitDate < t'.entryDate) → (∀ t ∈ trades, lo ≤ t.entryDate) →
      (∀ t ∈ trades, t.exitDate ≤ hi) → lo ≤ hi → (trades.map (·.holdingDays)).sum ≤ hi.day - lo.day := by
  intro trades
  induction trades with
  | nil =>
    intro lo _ _ _ _ hle
    exact Int.sub_nonneg_of_le hle
  | cons t trades ih =>
    intro lo hinside hbetween hlo hhi hle
    obtain ⟨ht, hinside⟩ := List.forall_mem_cons.mp hinside
    obtain ⟨hfirst, hbetween⟩ := List.pairwise_cons.mp hbetween
    obtain ⟨hlot, hlo⟩ := List.forall_mem_cons.mp hlo
    obtain ⟨hthi, hhi⟩ := List.forall_mem_cons.mp hhi
    have hrest := ih t.exitDate hinside hbetween (fun t' ht' => Date.le_of_lt (hfirst t' ht')) hhi hthi
    have hlot : lo.day ≤ t.entryDate.day := hlot
    rw [List.map_cons, List.sum_cons, Trade.holdingDays, Date.daysUntil]
    omega

/-- Each trade is held for a day at least. -/
theorem length_le_sum_holdingDays (trades : List (Trade Float)) (h : ∀ t ∈ trades, t.entryDate < t.exitDate) :
    (trades.length : Int) ≤ (trades.map (·.holdingDays)).sum := by
  induction trades with
  | nil => exact le_rfl
  | cons t trades ih =>
    obtain ⟨ht, hrest⟩ := List.forall_mem_cons.mp h
    have ht : t.entryDate.day < t.exitDate.day := ht
    have := ih hrest
    rw [List.map_cons, List.sum_cons, List.length_cons, Trade.holdingDays, Date.daysUntil]
    push_cast
    omega

/-! ## Reports -/

/-- The bars of an accepted history have sound fields. -/
theorem Bar.sound_of_checkFrom {bars : List (Bar Float)} {index : Nat} {previous : Option Date}
    (h : checkFrom index previous bars = .ok ()) : ∀ b ∈ bars, b.hasSoundFields = true := by
  induction bars generalizing index previous with
  | nil => exact fun b hb => absurd hb List.not_mem_nil
  | cons c bars ih =>
    obtain ⟨hfields, _, _, hrest⟩ : c.hasSoundFields = true ∧
        ∃ index previous, checkFrom index previous bars = .ok () := by
      cases previous with
      | none =>
        rw [checkFrom] at h
        split_ifs at h with hfields
        exact ⟨by simpa using hfields, _, _, h⟩
      | some p =>
        rw [checkFrom] at h
        split_ifs at h with hfields hle
        exact ⟨by simpa using hfields, _, _, h⟩
    intro b hb
    rcases List.mem_cons.mp hb with rfl | hb
    · exact hfields
    · exact ih hrest b hb

theorem Bar.isFinite_close {b : Bar Float} (h : b.hasSoundFields = true) : b.close.isFinite = true := by
  simp only [hasSoundFields, isSound, Bool.and_eq_true] at h
  exact h.1.2.1

/-- The constants that a rule compares with. -/
def Rule.constants (r : Rule Float) : List Float :=
  r.conditions.filterMap fun c => match c.right with
    | .constant v => some v
    | .source _ => none

/-- All numbers of a report. -/
def Report.numbers (r : Report) : List Float :=
  [r.returnPct, r.winRatePct] ++ r.rule.constants ++ r.chart.prices.map (·.2) ++
    r.chart.equity.map (·.returnPct) ++ r.chart.markers.map (·.price) ++
    r.trades.flatMap (fun t => [t.entryPrice, t.exitPrice, t.returnPct]) ++
    [r.statistics.average, r.statistics.best, r.statistics.worst, r.statistics.averageDays,
      r.statistics.drawdown.pct]

/-- What bounds the numbers of a report. -/
structure Report.IsBounded (r : Report) : Prop where
  constants : ∀ v ∈ r.rule.constants, v.isFinite = true
  prices : ∀ p ∈ r.chart.prices, p.2.isFinite = true
  markers : ∀ m ∈ r.chart.markers, m.price.isFinite = true
  trades : ∀ t ∈ r.trades,
    t.entryPrice.isFinite = true ∧ t.exitPrice.isFinite = true ∧ t.returnPct.isFinite = true
  winRate : IsPercentage r.winRatePct
  best : r.statistics.best.isFinite = true
  worst : r.statistics.worst.isFinite = true
  averageDays : r.statistics.averageDays.isFinite = true ∧ 0 ≤ toRat r.statistics.averageDays
  drawdown : IsPercentage r.statistics.drawdown.pct
  /-- Nothing is lost beyond everything; but a gain may be infinite. -/
  equity : ∀ p ∈ r.chart.equity, AtLeast (-100) p.returnPct
  total : AtLeast (-100) r.returnPct
  /-- The average may be infinite in both directions. -/
  average : r.statistics.average.isNaN = false

/-- A property of all numbers, kind by kind. -/
theorem Report.forall_numbers {r : Report} {p : Float → Prop} :
    (∀ x ∈ r.numbers, p x) ↔
      (p r.returnPct ∧ p r.winRatePct) ∧ (∀ v ∈ r.rule.constants, p v) ∧ (∀ q ∈ r.chart.prices, p q.2) ∧
        (∀ q ∈ r.chart.equity, p q.returnPct) ∧ (∀ m ∈ r.chart.markers, p m.price) ∧
        (∀ t ∈ r.trades, p t.entryPrice ∧ p t.exitPrice ∧ p t.returnPct) ∧
        p r.statistics.average ∧ p r.statistics.best ∧ p r.statistics.worst ∧ p r.statistics.averageDays ∧
        p r.statistics.drawdown.pct := by
  simp only [numbers, List.forall_mem_append, List.forall_mem_cons, List.forall_mem_map, List.forall_mem_flatMap,
    List.not_mem_nil, false_imp_iff, implies_true, and_true, and_assoc]

theorem Rule.IsSound.constants {r : Rule Float} (h : r.IsSound) : ∀ v ∈ r.constants, v.isFinite = true := by
  intro v hv
  obtain ⟨c, hc, hright⟩ := List.mem_filterMap.mp hv
  cases h.conditions c hc with
  | sources => cases hright
  | constant o sound admitted =>
    obtain rfl := Option.some.inj hright
    exact admitted.1

section

variable {order : Indicator.Table Float → List (Indicator.Series Float)} {rule : Rule Float}
  {bars : List (Bar Float)} {w : Window} {run : Run Float}

/-- The bars of a run have finite closes. -/
theorem Rule.isFinite_close (hrun : rule.runInOrder order bars w = .ok run) :
    ∀ b ∈ run.window, b.close.isFinite = true := by
  obtain ⟨-, -, -, hcheck, -⟩ := runInOrder_eq_ok_iff.mp hrun
  exact fun b hb => Bar.isFinite_close (Bar.sound_of_checkFrom hcheck b ((runInOrder_window hrun).subset hb))

/-- A trade with another return is refused. -/
theorem Rule.isFinite_returnPct (hrun : rule.runInOrder order bars w = .ok run) :
    ∀ t ∈ run.trades, t.returnPct.isFinite = true := by
  obtain ⟨marked, -, -, -, -, -, trades, hsim, rfl⟩ := runInOrder_eq_ok_iff.mp hrun
  exact (simulate_eq_ok_iff.mp hsim).2

/-- A trade begins and ends at bars of the window. -/
theorem Rule.ends_of_runInOrder (hrun : rule.runInOrder order bars w = .ok run) {p : Date → Float → Prop}
    (h : ∀ b ∈ run.window, p b.date b.close) :
    ∀ t ∈ run.trades, p t.entryDate t.entryPrice ∧ p t.exitDate t.exitPrice := by
  have hmarkers : ∀ m ∈ run.trades.flatMap Trade.markers, p m.date m.price := by
    intro m hm
    obtain ⟨b, hb, hmark⟩ := List.mem_map.mp ((Report.isConsistent_ofRun hrun).onPrices m hm)
    obtain ⟨hdate, hprice⟩ := Prod.mk.inj hmark
    rw [← hdate, ← hprice]
    exact h b hb
  exact fun t ht => ⟨hmarkers _ (List.mem_flatMap.mpr ⟨t, ht, List.mem_cons_self⟩),
    hmarkers _ (List.mem_flatMap.mpr ⟨t, ht, List.mem_cons_of_mem _ List.mem_cons_self⟩)⟩

/-- The calendar has so few days that they are counted without rounding. -/
theorem Rule.sum_holdingDays_lt (hdates : ∀ b ∈ bars, b.date.InCalendar)
    (hrun : rule.runInOrder order bars w = .ok run) :
    (run.trades.map (·.holdingDays)).sum < 2 * Decimal.fieldUnit ∧ run.trades.length < 2 * Decimal.fieldUnit := by
  obtain ⟨hinside, hbetween⟩ := runInOrder_trades hrun
  have hends := ends_of_runInOrder (p := fun date _ => date.InCalendar) hrun
    fun b hb => hdates b ((runInOrder_window hrun).subset hb)
  have hsum : (run.trades.map (·.holdingDays)).sum < 2 * Decimal.fieldUnit :=
    (sum_holdingDays_le run.trades _ hinside hbetween (fun t ht => (hends t ht).1.1)
      (fun t ht => (hends t ht).2.2) (by decide)).trans_lt (by decide)
  have hlength := length_le_sum_holdingDays run.trades hinside
  exact ⟨hsum, by omega⟩

/-- The bounds of the report of a run. -/
theorem Report.isBounded_ofRun (hrule : rule.IsSound) (hdates : ∀ b ∈ bars, b.date.InCalendar)
    (hrun : rule.runInOrder order bars w = .ok run) : (ofRun rule run).IsBounded := by
  obtain ⟨hsum, hlength⟩ := Rule.sum_holdingDays_lt hdates hrun
  have hcloses := Rule.isFinite_close hrun
  have hends := Rule.ends_of_runInOrder (p := fun _ price => price.isFinite = true) hrun hcloses
  have hreturns := Rule.isFinite_returnPct hrun
  have hreturns' : ∀ x ∈ run.trades.map (·.returnPct), x.isFinite = true := List.forall_mem_map.mpr hreturns
  have hone : AtLeast 0 ((1 : Nat) : Float) := .inl ⟨toRat_one.1, by rw [toRat_one.2]; exact zero_le_one⟩
  have hequity : ∀ p ∈ (ofRun rule run).chart.equity, AtLeast (-100) p.returnPct :=
    Performance.atLeast_equityFrom run.window hone run.trades
  have hdays : ∀ d ∈ run.trades.map (·.holdingDays), 0 ≤ d := by
    rw [List.forall_mem_map]
    intro t ht
    have hlt : t.entryDate.day < t.exitDate.day := (Rule.runInOrder_trades hrun).1 t ht
    rw [Trade.holdingDays, Date.daysUntil]
    omega
  constructor
  case constants => exact hrule.constants
  case prices => exact List.forall_mem_map.mpr hcloses
  case markers =>
    intro m hm
    obtain ⟨t, ht, hmt⟩ := List.mem_flatMap.mp hm
    simp only [Trade.markers, List.mem_cons, List.not_mem_nil, or_false] at hmt
    rcases hmt with rfl | rfl
    · exact (hends t ht).1
    · exact (hends t ht).2
  case trades => exact fun t ht => ⟨(hends t ht).1, (hends t ht).2, hreturns t ht⟩
  case winRate => exact isPercentage_roundCents (Performance.isPercentage_winRate hlength)
  case best => exact Performance.isFinite_extreme Scalar.larger_eq hreturns'
  case worst => exact Performance.isFinite_extreme Scalar.smaller_eq hreturns'
  case averageDays =>
    have hmean := Performance.mean_ofInt hdays (by rwa [List.length_map]) hsum
    rwa [List.map_map] at hmean
  case drawdown => exact Performance.isPercentage_drawdown hequity
  case equity => exact hequity
  case total => exact atLeast_roundCents (Performance.atLeast_percent (Performance.atLeast_growth hone run.trades))
  case average => exact Performance.isNaN_mean (by rwa [List.length_map]) hreturns'

end

/-- **Which numbers of a report are finite.** All but three kinds always are: the constants, the prices, the
returns of the trades, the best and the worst of them, the average of the days, and the win rate and the
drawdown, which are percentages. What compounds or adds up returns may overflow: the points of the equity
curve, the total return, and the average return. None of these is ever a NaN, and the equity never falls below a
loss of everything. So every number is finite if and only if these three are. -/
theorem Report.ofHistory_numbers {rule : Rule Float} {bars : List (Bar Float)} {w : Window} {r : Report}
    (hrule : rule.IsSound) (hdates : ∀ b ∈ bars, b.date.InCalendar) (h : ofHistory rule bars w = .ok r) :
    r.IsBounded ∧
      ((∀ x ∈ r.numbers, x.isFinite = true) ↔
        (∀ p ∈ r.chart.equity, p.returnPct.isFinite = true) ∧ r.returnPct.isFinite = true ∧
          r.statistics.average.isFinite = true) := by
  obtain ⟨run, hrun, rfl⟩ := ofHistory_eq_ok_iff.mp h
  have hbounded := isBounded_ofRun hrule hdates hrun
  refine ⟨hbounded, forall_numbers.trans ⟨?_, ?_⟩⟩
  · rintro ⟨⟨htotal, -⟩, -, -, hequity, -, -, haverage, -⟩
    exact ⟨hequity, htotal, haverage⟩
  · rintro ⟨hequity, htotal, haverage⟩
    exact ⟨⟨htotal, hbounded.winRate.finite⟩, hbounded.constants, hbounded.prices, hequity, hbounded.markers,
      hbounded.trades, haverage, hbounded.best, hbounded.worst, hbounded.averageDays.1, hbounded.drawdown.finite⟩

/-- The rule that buys while the price is below a number. -/
def Rule.buysBelow (v : Float) : Rule Float :=
  ⟨"ACME", .long, [⟨.source .price, .less, .constant v⟩], .all⟩

theorem Rule.isSound_buysBelow : (buysBelow 10).IsSound := by
  refine ⟨⟨by decide, by decide, List.all_eq_true.mp rfl⟩, by simp [buysBelow], ?_⟩
  simp only [buysBelow, List.mem_cons, List.not_mem_nil, or_false]
  rintro c rfl
  exact .constant _ (by decide) ⟨by decide, by decide⟩

theorem Bar.inCalendar_flatHistory (prices : List Float) (h : prices.length ≤ 1000) :
    ∀ b ∈ flatHistory prices, b.date.InCalendar := by
  intro b hb
  obtain ⟨⟨p, i⟩, hi, rfl⟩ := List.mem_map.mp hb
  have hlt : i < prices.length := by simpa using List.snd_lt_add_of_mem_zipIdx hi
  have hlow : (Date.ofCivil ⟨Date.minYear, 1, 1⟩).day ≤ 0 := by decide
  have hhigh : (1000 : Int) ≤ (Date.ofCivil ⟨Date.maxYear, 12, 31⟩).day := by decide
  have hi : (i : Int) ≤ 1000 := by exact_mod_cast (hlt.trans_le h).le
  exact ⟨hlow.trans (Int.natCast_nonneg i), hi.trans hhigh⟩

/-- Whether there is a report, and it passes a test. -/
def Report.passes (result : Except Failure Report) (test : Report → Bool) : Bool :=
  match result with
  | .ok r => test r
  | .error _ => false

theorem Report.exists_of_passes (result : Except Failure Report) (test : Report → Bool)
    (h : passes result test = true) : ∃ r, result = .ok r ∧ test r = true := by
  cases result with
  | ok r => exact ⟨r, rfl, h⟩
  | error fault => cases h

/-- A price rises by a factor of `1e306`, twice: numbers of all three kinds are infinite. -/
theorem Report.ofHistory_numbers_twoRises :
    ∃ r, (Rule.buysBelow 10).IsSound ∧
      (∀ b ∈ Bar.flatHistory [1, 1e306, 1, 1e306], b.date.InCalendar) ∧
      ofHistory (Rule.buysBelow 10) (Bar.flatHistory [1, 1e306, 1, 1e306]) .everything = .ok r ∧
      (r.returnPct.isFinite = false ∧ r.statistics.average.isFinite = false ∧
        r.chart.equity.map (·.returnPct.isFinite) = [true, true, true, false]) ∧
      r.IsBounded ∧
      ((∀ x ∈ r.numbers, x.isFinite = true) ↔
        (∀ p ∈ r.chart.equity, p.returnPct.isFinite = true) ∧ r.returnPct.isFinite = true ∧
          r.statistics.average.isFinite = true) := by
  have hdates := Bar.inCalendar_flatHistory [1, 1e306, 1, 1e306] (by decide)
  obtain ⟨r, hr, hinfinite⟩ := exists_of_passes
    (ofHistory (Rule.buysBelow 10) (Bar.flatHistory [1, 1e306, 1, 1e306]) .everything)
    (fun r => r.returnPct.isFinite = false ∧ r.statistics.average.isFinite = false ∧
      r.chart.equity.map (·.returnPct.isFinite) = [true, true, true, false]) (by decide +kernel)
  obtain ⟨hbounded, hiff⟩ := ofHistory_numbers Rule.isSound_buysBelow hdates hr
  exact ⟨r, Rule.isSound_buysBelow, hdates, hr, of_decide_eq_true hinfinite, hbounded, hiff⟩

/-- A return of `1e308` percent is its own rounding to two places. It is a point of the equity curve, but it
overflows on the way through a hundred times as much, and the report has no return. -/
theorem Report.ofHistory_returnOverflow :
    ∃ r, (Rule.buysBelow 10).IsSound ∧
      ofHistory (Rule.buysBelow 10) (Bar.flatHistory [1, 1e306]) .everything = .ok r ∧
      r.trades.map (·.returnPct) = [1e308] ∧ r.chart.equity.map (·.returnPct) = [0, 1e308] ∧
      r.returnPct ∈ r.numbers ∧ r.returnPct.isFinite = false ∧ r.toJson.get? "return" = some .null := by
  obtain ⟨r, hr, hvalues⟩ := exists_of_passes
    (ofHistory (Rule.buysBelow 10) (Bar.flatHistory [1, 1e306]) .everything)
    (fun r => r.trades.map (·.returnPct) = [1e308] ∧ r.chart.equity.map (·.returnPct) = [0, 1e308] ∧
      r.returnPct.isFinite = false) (by decide +kernel)
  obtain ⟨htrades, hequity, hinfinite⟩ := of_decide_eq_true hvalues
  have hjson : r.toJson.get? "return" = some (Json.ofFloat r.returnPct) := rfl
  refine ⟨r, Rule.isSound_buysBelow, hr, htrades, hequity, List.mem_append_left _ ?_, hinfinite, ?_⟩
  · simp
  · rw [hjson, Json.ofFloat, dif_neg (by rw [hinfinite]; exact Bool.false_ne_true)]

end Backtest
