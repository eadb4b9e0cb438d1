import Backtest.Proofs.Exact
import Backtest.Proofs.Extension

/-!
# Prices in another unit

Let all prices of a history be multiplied by the same positive number, and let the arithmetic be exact. Then the
indicators that are prices, or distances of prices, are multiplied by this number, and those that are not stay as they
are. A condition is free of units if both of its sides are of the one kind or both of the other, and if it does not
ask for two prices to be equal, which is decided up to an absolute tolerance. A rule of such conditions does the same
over both histories, but for the prices of its trades: `Rule.runInOrder_scaled`.

* Averages are homogeneous, each along the walk that computes it: `rollingMean_scaled`, `seeded_map`.
* The strength index divides averages by each other (`strength_scaled`), so the unit cancels.
* What an operand reads at a bar is carried through the table of the series by `Source.valueAt_scaled` and
  `Source.valueAt_plain`, and from there through the comparisons by `Condition.holdsAt_scaled`.
-/

namespace Backtest

variable {K : Type} [OrderedField K] {c : K}

/-! ## What is multiplied -/

def Bar.scaled (c : K) (b : Bar K) : Bar K :=
  { b with openPrice := c * b.openPrice, high := c * b.high, low := c * b.low, close := c * b.close }

def Indicator.Reading.scaled (c : K) : Reading K → Reading K
  | .single v => .single (c * v)
  | .macd line signal histogram => .macd (c * line) (c * signal) (c * histogram)
  | .bands upper middle lower => .bands (c * upper) (c * middle) (c * lower)

def Holding.scaled (c : K) (h : Holding K) : Holding K := ⟨h.entry.scaled c, h.exit.scaled c, h.reason⟩

def Trade.scaled (c : K) (t : Trade K) : Trade K :=
  { t with entryPrice := c * t.entryPrice, exitPrice := c * t.exitPrice }

/-- A run with its prices multiplied: those of the bars, and of each trade those of entry and exit. -/
def Run.scaled (c : K) (r : Run K) : Run K :=
  { r with window := r.window.map (Bar.scaled c), trades := r.trades.map (Trade.scaled c) }

theorem map_close_scaled (c : K) (bars : List (Bar K)) :
    (bars.map (Bar.scaled c)).map (·.close) = (bars.map (·.close)).map (c * ·) := by
  rw [List.map_map, List.map_map]
  rfl

open Exact

/-! ## Averages -/

namespace Indicator

theorem rollingFrom_scaled (c : K) (n : ℕ) (xs : List K) : ∀ (seen : ℕ) (sum : K) (leaving : List K),
    rollingFrom n seen (c * sum) (leaving.map (c * ·)) (xs.map (c * ·)) =
      (rollingFrom n seen sum leaving xs).map (Option.map (c * ·)) := by
  induction xs with
  | nil => exact fun _ _ _ => rfl
  | cons x xs ih =>
    intro seen sum leaving
    have hhead : (leaving.map (c * ·)).headD (c * x) = c * leaving.headD x := by cases leaving <;> rfl
    by_cases hn : n ≤ seen
    · simp only [List.map_cons, rollingFrom, if_pos hn, if_pos (Nat.le_succ_of_le hn), hhead, ← List.map_tail,
        ← mul_add, ← mul_sub, ih, Option.map_some, mul_div_assoc]
    · simp only [List.map_cons, rollingFrom, if_neg hn, ← mul_add, ih, mul_div_assoc]
      split_ifs <;> rfl

theorem rollingMean_scaled (c : K) (n : ℕ) (xs : List K) :
    rollingMean n (xs.map (c * ·)) = (rollingMean n xs).map (Option.map (c * ·)) := by
  unfold rollingMean
  split_ifs
  · rw [List.map_map, List.map_map]
    rfl
  · have hzero : ((0 : ℕ) : K) = c * ((0 : ℕ) : K) := by simp
    rw [hzero, rollingFrom_scaled, ← hzero]

section

variable {α β : Type} {step : α → α → α} {f : α → α}

theorem runningFrom_map (hstep : ∀ a x, step (f a) (f x) = f (step a x)) (xs : List α) :
    ∀ a, runningFrom step (f a) (xs.map f) = (runningFrom step a xs).map (Option.map f) := by
  induction xs with
  | nil => exact fun _ => rfl
  | cons x xs ih =>
    intro a
    rw [List.map_cons, runningFrom, runningFrom, hstep, ih, List.map_cons, Option.map_some]

/-- A running average is carried along by whatever commutes with its seed and its step. -/
theorem seeded_map {seed : List α → α} (hseed : ∀ first, seed (first.map f) = f (seed first))
    (hstep : ∀ a x, step (f a) (f x) = f (step a x)) (n : ℕ) (xs : List α) :
    seeded n seed step (xs.map f) = (seeded n seed step xs).map (Option.map f) := by
  unfold seeded
  rw [List.length_map]
  split_ifs
  · rw [List.map_map, List.map_map]
    rfl
  · simp [← List.map_take, ← List.map_drop, hseed, runningFrom_map hstep]

end

theorem sum_scaled (c : K) (xs : List K) : (xs.map (c * ·)).sum = c * xs.sum := by
  rw [List.sum_map_mul_left, List.map_id']

theorem exponentialMean_scaled (c : K) (n : ℕ) (xs : List K) :
    exponentialMean n (xs.map (c * ·)) = (exponentialMean n xs).map (Option.map (c * ·)) := by
  unfold exponentialMean
  apply seeded_map
  · intro first
    rw [foldl_add_eq, foldl_add_eq, sum_scaled, Nat.cast_zero, zero_add, zero_add, mul_div_assoc]
  · intro a x
    ring

theorem wilderMean_scaled (c : K) (n : ℕ) (xs : List K) :
    wilderMean n (xs.map (c * ·)) = (wilderMean n xs).map (Option.map (c * ·)) := by
  unfold wilderMean
  apply seeded_map
  · intro first
    rw [total_eq, total_eq, sum_scaled, mul_div_assoc]
  · intro a x
    ring

/-! ## Indicators -/

theorem trueRanges_scaled (hc : 0 ≤ c) (bars : List (Bar K)) :
    trueRanges (bars.map (Bar.scaled c)) = (trueRanges bars).map (c * ·) := by
  have hrange : ∀ (b : Bar K) (previous : K), (b.scaled c).trueRange (c * previous) = c * b.trueRange previous := by
    intro b previous
    simp only [Bar.trueRange, larger_eq, abs_def, Bar.scaled, ← mul_sub, abs_mul, abs_of_nonneg hc,
      mul_max_of_nonneg _ _ hc]
  cases bars with
  | nil => rfl
  | cons b rest =>
    rw [List.map_cons, trueRanges, trueRanges, List.map_cons]
    congr 1
    · exact (mul_sub c b.high b.low).symm
    · rw [← List.map_cons, List.zipWith_map, List.map_zipWith]
      exact congrArg (List.zipWith · _ _) (funext₂ fun p q => hrange q p.close)

theorem changes_scaled (c : K) (closes : List K) : changes (closes.map (c * ·)) = (changes closes).map (c * ·) := by
  simp [changes, ← List.map_tail, List.zipWith_map, List.map_zipWith, mul_sub]

theorem gain_scaled (hc : 0 ≤ c) (x : K) : gain (c * x) = c * gain x := by
  simp [gain, larger_eq, mul_max_of_nonneg _ _ hc]

theorem loss_scaled (hc : 0 ≤ c) (x : K) : loss (c * x) = c * loss x := by
  simp [loss, larger_eq, mul_max_of_nonneg _ _ hc]

/-- Gains against losses have no unit. -/
theorem strength_scaled (hc : 0 < c) (averageGain averageLoss : K) :
    strength (c * averageGain) (c * averageLoss) = strength averageGain averageLoss := by
  have hzero : ∀ x : K, (decide (c * x ≤ ((0 : ℕ) : K)) && decide (((0 : ℕ) : K) ≤ c * x)) =
      (decide (x ≤ ((0 : ℕ) : K)) && decide (((0 : ℕ) : K) ≤ x)) := by
    intro x
    have hle : c * x ≤ 0 ↔ x ≤ 0 := by rw [← not_lt, ← not_lt, mul_pos_iff_of_pos_left hc]
    simp [mul_nonneg_iff_of_pos_left hc, hle]
  simp only [strength, hzero, mul_div_mul_left _ _ hc.ne']

theorem relativeStrength_scaled (hc : 0 < c) (n : ℕ) (closes : List K) :
    relativeStrength n (closes.map (c * ·)) = relativeStrength n closes := by
  cases closes with
  | nil => rfl
  | cons x rest =>
    have hgains : ((changes ((x :: rest).map (c * ·))).map gain) = ((changes (x :: rest)).map gain).map (c * ·) := by
      rw [changes_scaled, List.map_map, List.map_map]
      exact List.map_congr_left fun m _ => gain_scaled hc.le m
    have hlosses : ((changes ((x :: rest).map (c * ·))).map loss) = ((changes (x :: rest)).map loss).map (c * ·) := by
      rw [changes_scaled, List.map_map, List.map_map]
      exact List.map_congr_left fun m _ => loss_scaled hc.le m
    rw [List.map_cons, relativeStrength, relativeStrength, ← List.map_cons, hgains, hlosses, wilderMean_scaled,
      wilderMean_scaled, List.zipWith_map]
    congr 2
    funext g l
    cases g <;> cases l <;> simp [strength_scaled hc]

theorem divergenceLine_scaled (c : K) (fast slow : ℕ) (closes : List K) :
    divergenceLine fast slow (closes.map (c * ·)) = (divergenceLine fast slow closes).map (c * ·) := by
  rw [divergenceLine, divergenceLine, exponentialMean_scaled, exponentialMean_scaled, List.zip_map, ← List.map_drop,
    List.filterMap_map, List.map_filterMap]
  congr 1
  funext means
  obtain ⟨f, s⟩ := means
  cases f <;> cases s <;> simp [mul_sub]

theorem divergence_scaled (c : K) (fast slow signal : ℕ) (closes : List K) :
    divergence fast slow signal (closes.map (c * ·)) =
      (divergence fast slow signal closes).map (Option.map (Reading.scaled c)) := by
  unfold divergence
  rw [List.length_map]
  split_ifs
  · rw [List.map_map, List.map_map]
    rfl
  · simp only [divergenceLine_scaled, exponentialMean_scaled, List.zipWith_map, List.map_append, List.map_replicate,
      Option.map_none, List.map_zipWith]
    congr 2
    funext l mean
    cases mean <;> simp [Reading.scaled, mul_sub]

end Indicator

/-! ## Operands -/

/-- Whether a source is a price or a distance of prices. -/
def Source.inPrices : Source → Bool
  | .price | .indicator (.sma _) _ | .indicator (.ema _) _ | .indicator (.atr _) _ | .indicator (.macd ..) _ => true
  | _ => false

/-- Whether a source has no unit of price. -/
def Source.isPlain : Source → Bool
  | .volume | .indicator (.rsi _) _ => true
  | _ => false

def Operand.inPrices : Operand K → Bool
  | .source s => s.inPrices
  | .constant _ => false

def Operand.isPlain : Operand K → Bool
  | .source s => s.isPlain
  | .constant _ => true

/-- Both sides are prices, which are not asked to be equal, or neither has a unit of price. -/
def Condition.IsUnitFree (d : Condition K) : Prop :=
  d.left.inPrices = true ∧ d.right.inPrices = true ∧ d.operator ≠ .equal ∨
    d.left.isPlain = true ∧ d.right.isPlain = true

instance (d : Condition K) : Decidable d.IsUnitFree :=
  inferInstanceAs (Decidable (d.left.inPrices = true ∧ d.right.inPrices = true ∧ d.operator ≠ .equal ∨
    d.left.isPlain = true ∧ d.right.isPlain = true))

theorem Indicator.Reading.field?_scaled (c : K) (r : Reading K) (field : Field) :
    (r.scaled c).field? field = (r.field? field).map (c * ·) := by
  cases r <;> cases field <;> rfl

section

variable (is : List Indicator) (bars : List (Bar K)) (index : ℕ)

/-- What a source reads of an indicator changes as the readings of the indicator do. -/
theorem Source.valueAt_of_readings {i : Indicator} {field : Field} {g : Indicator.Reading K → Indicator.Reading K}
    {f : K → K} (hreadings : i.readings (bars.map (Bar.scaled c)) = (i.readings bars).map (Option.map g))
    (hfield : ∀ r, (g r).field? field = (r.field? field).map f) :
    (Source.indicator i field).valueAt (Indicator.table is (bars.map (Bar.scaled c))) (bars.map (Bar.scaled c)) index =
      ((Source.indicator i field).valueAt (Indicator.table is bars) bars index).map f := by
  have hpoints : (i.series (bars.map (Bar.scaled c))).points =
      (i.series bars).points.map fun p => ⟨p.date, p.reading.map g⟩ := by
    rw [Indicator.series, hreadings, List.zipWith_map, Indicator.series, List.map_zipWith]
    rfl
  simp only [Source.valueAt, Indicator.find?_table]
  cases hfind : (Indicator.distinct is).find? (· = i) with
  | none => rfl
  | some j =>
    obtain rfl : j = i := by simpa using List.find?_some hfind
    simp only [Option.map_some, Option.bind_eq_bind, Option.bind_some, hpoints, List.getElem?_map]
    cases (j.series bars).points[index]? with
    | none => rfl
    | some p =>
      cases hreading : p.reading with
      | none => simp [hreading]
      | some r => simp [hreading, hfield]

theorem Source.valueAt_scaled (hc : 0 ≤ c) {s : Source} (hs : s.inPrices = true) :
    s.valueAt (Indicator.table is (bars.map (Bar.scaled c))) (bars.map (Bar.scaled c)) index =
      (s.valueAt (Indicator.table is bars) bars index).map (c * ·) := by
  have hsingle : ∀ xs : List (Option K), (xs.map (Option.map (c * ·))).map (·.map Indicator.Reading.single) =
      (xs.map (·.map Indicator.Reading.single)).map (Option.map (Indicator.Reading.scaled c)) := by
    intro xs
    simp [Function.comp_def, Indicator.Reading.scaled]
  cases s with
  | price => simp [Source.valueAt, Bar.scaled, Function.comp_def]
  | volume => cases hs
  | indicator i field =>
    refine valueAt_of_readings is bars index ?_ fun r => r.field?_scaled c field
    cases i with
    | sma n => simp only [Indicator.readings, map_close_scaled, Indicator.rollingMean_scaled, hsingle]
    | ema n => simp only [Indicator.readings, map_close_scaled, Indicator.exponentialMean_scaled, hsingle]
    | atr n =>
      simp only [Indicator.readings, Indicator.averageTrueRange, Indicator.trueRanges_scaled hc,
        Indicator.wilderMean_scaled, hsingle]
    | macd fast slow signal => simp only [Indicator.readings, map_close_scaled, Indicator.divergence_scaled]
    | rsi | bollinger => cases hs

theorem Source.valueAt_plain (hc : 0 < c) {s : Source} (hs : s.isPlain = true) :
    s.valueAt (Indicator.table is (bars.map (Bar.scaled c))) (bars.map (Bar.scaled c)) index =
      s.valueAt (Indicator.table is bars) bars index := by
  cases s with
  | price => cases hs
  | volume => simp [Source.valueAt, Bar.scaled, Function.comp_def]
  | indicator i field =>
    cases i with
    | rsi n =>
      have hreadings : (Indicator.rsi n).readings (bars.map (Bar.scaled c)) =
          ((Indicator.rsi n).readings bars).map (Option.map id) := by
        simp only [Indicator.readings, map_close_scaled, Indicator.relativeStrength_scaled hc, Option.map_id,
          List.map_id]
      rw [valueAt_of_readings is bars index hreadings (f := id) fun r => by simp, Option.map_id, id]
    | sma | ema | atr | macd | bollinger => cases hs

/-! ## Conditions -/

/-- Comparisons of prices do not depend on the unit, but for the one with a tolerance. -/
theorem Operator.compares_scaled (hc : 0 < c) {o : Operator} (ho : o ≠ .equal) (x y : K) :
    o.compares (c * x) (c * y) = o.compares x y := by
  cases o <;> simp_all [Operator.compares]

/-- Two prices that differ by less than the tolerance differ by more in cents. -/
example : Operator.equal.compares (1 : ℚ) (1 + 1 / 10 ^ 10) = true ∧
    Operator.equal.compares (100 : ℚ) (100 * (1 + 1 / 10 ^ 10)) = false := by decide +kernel

theorem Operator.comparesBefore_scaled (hc : 0 < c) (o : Operator) (x y : K) :
    o.comparesBefore (c * x) (c * y) = o.comparesBefore x y := by
  cases o <;> simp_all [Operator.comparesBefore]

theorem Operand.valueAt_scaled (hc : 0 ≤ c) {o : Operand K} (ho : o.inPrices = true) :
    o.valueAt (Indicator.table is (bars.map (Bar.scaled c))) (bars.map (Bar.scaled c)) index =
      (o.valueAt (Indicator.table is bars) bars index).map (c * ·) := by
  cases o with
  | source s => exact Source.valueAt_scaled is bars index hc ho
  | constant v => cases ho

theorem Operand.valueAt_plain (hc : 0 < c) {o : Operand K} (ho : o.isPlain = true) :
    o.valueAt (Indicator.table is (bars.map (Bar.scaled c))) (bars.map (Bar.scaled c)) index =
      o.valueAt (Indicator.table is bars) bars index := by
  cases o with
  | source s => exact Source.valueAt_plain is bars index hc ho
  | constant v => rfl

theorem Condition.testAt_scaled (hc : 0 < c) {d : Condition K} (hd : d.IsUnitFree) {test : K → K → Bool}
    (htest : d.operator ≠ .equal → ∀ x y, test (c * x) (c * y) = test x y) :
    d.testAt (Indicator.table is (bars.map (Bar.scaled c))) (bars.map (Bar.scaled c)) index test =
      d.testAt (Indicator.table is bars) bars index test := by
  unfold testAt
  rcases hd with ⟨hleft, hright, hoperator⟩ | ⟨hleft, hright⟩
  · rw [Operand.valueAt_scaled is bars index hc.le hleft, Operand.valueAt_scaled is bars index hc.le hright]
    cases d.left.valueAt (Indicator.table is bars) bars index with
    | none => rfl
    | some x =>
      cases d.right.valueAt (Indicator.table is bars) bars index with
      | none => rfl
      | some y => exact htest hoperator x y
  · rw [Operand.valueAt_plain is bars index hc hleft, Operand.valueAt_plain is bars index hc hright]

theorem Condition.holdsAt_scaled (hc : 0 < c) {d : Condition K} (hd : d.IsUnitFree) :
    d.holdsAt (Indicator.table is (bars.map (Bar.scaled c))) (bars.map (Bar.scaled c)) index =
      d.holdsAt (Indicator.table is bars) bars index := by
  have hnow := testAt_scaled is bars index hc hd fun hoperator => Operator.compares_scaled hc hoperator
  have hbefore := fun before => testAt_scaled is bars before hc hd fun _ => d.operator.comparesBefore_scaled hc
  cases index with
  | zero => simp only [holdsAt, hnow]
  | succ before => simp only [holdsAt, hnow, hbefore]

theorem Rule.signal_scaled (hc : 0 < c) {r : Rule K} (hr : ∀ d ∈ r.conditions, d.IsUnitFree) :
    r.signal (Indicator.table is (bars.map (Bar.scaled c))) (bars.map (Bar.scaled c)) =
      r.signal (Indicator.table is bars) bars := by
  unfold Rule.signal
  congr 1
  apply List.map_congr_left
  intro d hd
  rw [Condition.signal, Condition.signal, List.length_map]
  exact List.map_congr_left fun i _ => d.holdsAt_scaled is bars i hc (hr d hd)

end

/-! ## Runs -/

theorem Bar.check_scaled (hc : 0 < c) (bars : List (Bar K)) : Bar.check (bars.map (Bar.scaled c)) = Bar.check bars := by
  have hsound : ∀ b : Bar K, (b.scaled c).hasSoundFields = b.hasSoundFields := by
    intro b
    simp [hasSoundFields, isSound, isFinite_eq, Bar.scaled, mul_nonneg_iff_of_pos_left hc]
  have hfrom : ∀ (bars : List (Bar K)) index previous,
      checkFrom index previous (bars.map (Bar.scaled c)) = checkFrom index previous bars := by
    intro bars
    induction bars with
    | nil => exact fun _ _ => rfl
    | cons b rest ih =>
      intro index previous
      have hdate : (b.scaled c).date = b.date := rfl
      unfold checkFrom
      simp only [List.map_cons, hsound, hdate, ih]
  exact hfrom bars 0 none

theorem Rule.checkHistory_scaled (r : Rule K) (bars : List (Bar K)) :
    r.checkHistory (bars.map (Bar.scaled c)) = r.checkHistory bars := by
  rw [checkHistory, checkHistory, List.length_map]

theorem Window.cut_scaled (w : Window) (bars : List (Bar K)) (signal : List Bool) :
    w.cut (·.1.date) ((bars.map (Bar.scaled c)).zip signal) =
      (w.cut (·.1.date) (bars.zip signal)).map (Prod.map (Bar.scaled c) id) := by
  rw [cut, cut, List.zip_map_left, List.takeWhile_map, List.dropWhile_map]
  rfl

theorem holdingsFrom_scaled (hc : 0 < c) (marked : List (Bar K × Bool)) : ∀ entry : Option (Bar K),
    holdingsFrom (entry.map (Bar.scaled c)) (marked.map (Prod.map (Bar.scaled c) id)) =
      (holdingsFrom entry marked).map (Holding.scaled c) := by
  have hpositive : ∀ b : Bar K, decide (((0 : ℕ) : K) < (b.scaled c).close) = decide (((0 : ℕ) : K) < b.close) := by
    intro b
    simp [Bar.scaled, mul_pos_iff_of_pos_left hc]
  induction marked with
  | nil => exact fun _ => rfl
  | cons mark rest ih =>
    intro entry
    obtain ⟨bar, fires⟩ := mark
    have hnone := ih none
    have hsome := fun e => ih (some e)
    simp only [Option.map_none, Option.map_some] at hnone hsome
    cases entry with
    | none =>
      simp only [Option.map_none, List.map_cons, Prod.map, id, holdingsFrom, List.isEmpty_map, hpositive]
      split_ifs
      · exact hsome bar
      · exact hnone
    | some e =>
      simp only [Option.map_some, List.map_cons, Prod.map, id, holdingsFrom, List.isEmpty_map]
      split_ifs
      · rw [List.map_cons, ← hnone]
        rfl
      · rfl
      · exact hsome e

theorem holdings_scaled (hc : 0 < c) (window : List (Bar K)) (signal : List Bool) :
    holdings (window.map (Bar.scaled c)) signal = (holdings window signal).map (Holding.scaled c) := by
  rw [holdings, holdings, List.zip_map_left]
  exact holdingsFrom_scaled hc _ none

/-- The return of a trade is a ratio, which has no unit. -/
theorem Holding.trade_scaled (hc : 0 < c) (d : Direction) (h : Holding K) :
    (h.scaled c).trade d = (h.trade d).scaled c := by
  simp only [trade, scaled, Trade.scaled, Bar.scaled, mul_div_mul_left _ _ hc.ne']

/-- **Prices have no unit.** Let all prices of a history be multiplied by a positive number, under exact arithmetic,
and let the conditions of a rule be free of units. Then the rule is refused over the one history exactly as over the
other, or it runs over both, on bars and with trades that differ in nothing but their prices. -/
theorem Rule.runInOrder_scaled (hc : 0 < c) {r : Rule K} (hr : ∀ d ∈ r.conditions, d.IsUnitFree)
    (order order' : Indicator.Table K → List (Indicator.Series K)) (bars : List (Bar K)) (w : Window) :
    r.runInOrder order' (bars.map (Bar.scaled c)) w = (r.runInOrder order bars w).map (Run.scaled c) := by
  rw [runInOrder_eq, runInOrder_eq, Bar.check_scaled hc, checkHistory_scaled, signal_scaled _ bars hc hr,
    Window.cut_scaled]
  cases Bar.check bars with
  | error fault => rfl
  | ok =>
    cases r.checkHistory bars with
    | error fault => rfl
    | ok =>
      generalize w.cut (·.1.date) (bars.zip (r.signal (Indicator.table r.indicators bars) bars)) = marked
      simp only [List.isEmpty_map]
      have hwindow : (marked.map (Prod.map (Bar.scaled c) id)).map (·.1) = (marked.map (·.1)).map (Bar.scaled c) := by
        rw [List.map_map, List.map_map]
        rfl
      have hsignal : (marked.map (Prod.map (Bar.scaled c) id)).map (·.2) = marked.map (·.2) := by
        rw [List.map_map]
        rfl
      have htrades : ∀ hs : List (Holding K), (hs.map (Holding.scaled c)).map (Holding.trade r.direction) =
          (hs.map (Holding.trade r.direction)).map (Trade.scaled c) := by
        intro hs
        rw [List.map_map, List.map_map]
        exact List.map_congr_left fun h _ => h.trade_scaled hc r.direction
      rw [hwindow, hsignal, holdings_scaled hc, htrades]
      split_ifs
      · rfl
      · rfl

/-- A history of one bar a day, around a close. -/
def Bar.aroundCloses (closes : List ℚ) : List (Bar ℚ) :=
  closes.zipIdx.map fun (p, i) => ⟨⟨i⟩, p, p + 1, p - 1, p, 100⟩

/-- A rule that reads prices, strength and volume. -/
def Rule.crossesMean : Rule ℚ where
  ticker := "ACME"
  direction := .long
  conditions := [⟨.source .price, .crossesAbove, .source (.indicator (.sma 2) .value)⟩,
    ⟨.source (.indicator (.atr 2) .value), .less, .source (.indicator (.ema 2) .value)⟩,
    ⟨.source (.indicator (.rsi 2) .value), .less, .constant 90⟩, ⟨.source .volume, .greater, .constant 50⟩]
  combination := .all

/-- At three halves of the prices, a trade from 5 to 6 is one from 7.5 to 9, and gains as much. -/
theorem Rule.runInOrder_scaled_crossesMean :
    (0 : ℚ) < 3 / 2 ∧ (∀ d ∈ crossesMean.conditions, d.IsUnitFree) ∧
      crossesMean.run ((Bar.aroundCloses [6, 4, 5, 6]).map (Bar.scaled (3 / 2))) .everything =
        (crossesMean.run (Bar.aroundCloses [6, 4, 5, 6]) .everything).map (Run.scaled (3 / 2)) ∧
      (crossesMean.run (Bar.aroundCloses [6, 4, 5, 6]) .everything).toOption.map
        (·.trades.map fun t => (t.entryPrice, t.exitPrice, t.returnPct)) = some [(5, 6, 20)] := by
  have hc : (0 : ℚ) < 3 / 2 := by norm_num
  have hr : ∀ d ∈ crossesMean.conditions, d.IsUnitFree := by decide
  exact ⟨hc, hr, runInOrder_scaled hc hr id id _ _, by decide +kernel⟩

end Backtest
