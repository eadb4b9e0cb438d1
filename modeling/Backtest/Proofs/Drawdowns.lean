import Mathlib
import Backtest.Proofs.Equity
import Backtest.Proofs.PriceUnit

/-!
# The deepest and the longest drawdown

A drawdown compares every equity with every later one, and the walk along the curve looks at each equity once. With
exact arithmetic they come to the same: the walk finds the greatest of all falls (`falls`) and the longest stretch of
bars below a peak (`stretches`).

What the walk remembers is, of the equities seen so far, the highest one, the deepest fall, the longest stretch, and
the stretch that has not ended yet (`Walk.Tracks`). One more equity adds the falls that end there, of which the one
from the peak is the deepest (`falls_concat`, `isGreatest_fallsTo`), and the stretches that end there
(`stretches_concat`).

A fall is measured by its peak, which has to be positive. The curve of a run begins at one, because no trade ends at
the first bar (`Rule.runInOrder_exits_behind`), and is never negative (`growth_nonneg`).
-/

namespace Backtest

open Exact

namespace Performance

variable {K : Type} [OrderedField K]

/-! ## Falls -/

/-- The falls from a positive equity to itself and to the later ones, in percent of it; a rise is a negative fall. -/
def falls (E : List K) : Set K :=
  {d | ∃ (i j : Nat) (x y : K), i ≤ j ∧ E[i]? = some x ∧ E[j]? = some y ∧ 0 < x ∧ d = 100 * (x - y) / x}

/-- The falls to an equity from one of these. -/
def fallsTo (y : K) (E : List K) : Set K := {d | ∃ x ∈ E, 0 < x ∧ d = 100 * (x - y) / x}

theorem falls_nil : falls ([] : List K) = ∅ := by
  refine Set.eq_empty_iff_forall_notMem.mpr ?_
  rintro d ⟨i, j, x, y, -, hx, -⟩
  cases hx

theorem falls_concat (E : List K) (e : K) : falls (E ++ [e]) = falls E ∪ fallsTo e (E ++ [e]) := by
  ext d
  constructor
  · rintro ⟨i, j, x, y, hij, hx, hy, hpos, rfl⟩
    rcases Nat.lt_or_ge j E.length with hj | hj
    · rw [List.getElem?_append_left (Nat.lt_of_le_of_lt hij hj)] at hx
      rw [List.getElem?_append_left hj] at hy
      exact .inl ⟨i, j, x, y, hij, hx, hy, hpos, rfl⟩
    · have hlast : j = E.length := by
        have hlt := (List.getElem?_eq_some_iff.mp hy).1
        rw [List.length_append, List.length_singleton] at hlt
        omega
      rw [hlast, List.getElem?_concat_length, Option.some.injEq] at hy
      exact .inr ⟨x, List.mem_of_getElem? hx, hpos, by rw [hy]⟩
  · rintro (⟨i, j, x, y, hij, hx, hy, hpos, rfl⟩ | ⟨x, hx, hpos, rfl⟩)
    · have hi := (List.getElem?_eq_some_iff.mp hx).1
      have hj := (List.getElem?_eq_some_iff.mp hy).1
      exact ⟨i, j, x, y, hij, by rwa [List.getElem?_append_left hi], by rwa [List.getElem?_append_left hj], hpos, rfl⟩
    · obtain ⟨i, hi⟩ := List.mem_iff_getElem?.mp hx
      have hlt := (List.getElem?_eq_some_iff.mp hi).1
      rw [List.length_append, List.length_singleton] at hlt
      exact ⟨i, E.length, x, e, by omega, hi, List.getElem?_concat_length, hpos, rfl⟩

theorem zero_mem_falls {E : List K} {x : K} (hx : x ∈ E) (hpos : 0 < x) : 0 ∈ falls E := by
  obtain ⟨i, hi⟩ := List.mem_iff_getElem?.mp hx
  exact ⟨i, i, x, x, le_rfl, hi, hi, hpos, by rw [sub_self, mul_zero, zero_div]⟩

/-- Of the falls to an equity, the one from the highest equity is the deepest. -/
theorem isGreatest_fallsTo {E : List K} {peak e : K} (hpeak : IsGreatest {x | x ∈ E} peak) (hpos : 0 < peak)
    (he : 0 ≤ e) : IsGreatest (fallsTo e E) (100 * (peak - e) / peak) := by
  refine ⟨⟨peak, hpeak.1, hpos, rfl⟩, ?_⟩
  rintro d ⟨x, hx, hx0, rfl⟩
  have hle : x ≤ peak := hpeak.2 hx
  rw [div_le_div_iff₀ hx0 hpos]
  nlinarith [mul_nonneg he (sub_nonneg.mpr hle)]

/-! ## Stretches -/

/-- Whether an equity is below an earlier one. -/
def IsBelow (E : List K) (j : Nat) : Prop :=
  ∃ (i : Nat) (x y : K), i < j ∧ E[i]? = some x ∧ E[j]? = some y ∧ y < x

/-- How many equities in a row are below earlier ones. -/
def stretches (E : List K) : Set Nat :=
  {n | ∃ a, a + n ≤ E.length ∧ ∀ j, a ≤ j → j < a + n → IsBelow E j}

/-- How many equities in a row are below earlier ones, up to the last equity. -/
def lastStretches (E : List K) : Set Nat :=
  {n | n ≤ E.length ∧ ∀ j, E.length ≤ j + n → j < E.length → IsBelow E j}

theorem isBelow_concat {E : List K} {e : K} {j : Nat} (hj : j < E.length) :
    IsBelow (E ++ [e]) j ↔ IsBelow E j := by
  have hsame : ∀ i, i ≤ j → (E ++ [e])[i]? = E[i]? := fun i hi => List.getElem?_append_left (Nat.lt_of_le_of_lt hi hj)
  constructor
  · rintro ⟨i, x, y, hij, hx, hy, hlt⟩
    exact ⟨i, x, y, hij, by rwa [hsame i hij.le] at hx, by rwa [hsame j le_rfl] at hy, hlt⟩
  · rintro ⟨i, x, y, hij, hx, hy, hlt⟩
    exact ⟨i, x, y, hij, by rwa [hsame i hij.le], by rwa [hsame j le_rfl], hlt⟩

theorem isBelow_last {E : List K} {peak e : K} (hpeak : IsGreatest {x | x ∈ E} peak) :
    IsBelow (E ++ [e]) E.length ↔ e < peak := by
  constructor
  · rintro ⟨i, x, y, hi, hx, hy, hlt⟩
    rw [List.getElem?_append_left hi] at hx
    rw [List.getElem?_concat_length, Option.some.injEq] at hy
    exact hy ▸ hlt.trans_le (hpeak.2 (List.mem_of_getElem? hx))
  · intro hlt
    obtain ⟨i, hi⟩ := List.mem_iff_getElem?.mp hpeak.1
    have hi' := (List.getElem?_eq_some_iff.mp hi).1
    exact ⟨i, peak, e, hi', by rwa [List.getElem?_append_left hi'], List.getElem?_concat_length, hlt⟩

theorem not_isBelow_zero (E : List K) : ¬ IsBelow E 0 := by
  rintro ⟨i, x, y, hi, -⟩
  exact Nat.not_lt_zero i hi

theorem isGreatest_stretches_nil : IsGreatest (stretches ([] : List K)) 0 := by
  constructor
  · exact ⟨0, le_rfl, fun j _ hj => absurd hj (Nat.not_lt_zero j)⟩
  · rintro n ⟨a, ha, -⟩
    exact (Nat.le_add_left n a).trans ha

theorem stretches_concat (E : List K) (e : K) : stretches (E ++ [e]) = stretches E ∪ lastStretches (E ++ [e]) := by
  have hlength : (E ++ [e]).length = E.length + 1 := List.length_append
  ext n
  constructor
  · rintro ⟨a, ha, hbelow⟩
    rcases Nat.lt_or_ge E.length (a + n) with hlast | hinside
    · exact .inr ⟨by omega, fun j hj hj' => hbelow j (by omega) (by omega)⟩
    · exact .inl ⟨a, hinside, fun j hj hj' => (isBelow_concat (by omega)).mp (hbelow j hj hj')⟩
  · rintro (⟨a, ha, hbelow⟩ | ⟨hn, hbelow⟩)
    · exact ⟨a, by omega, fun j hj hj' => (isBelow_concat (by omega)).mpr (hbelow j hj hj')⟩
    · exact ⟨(E ++ [e]).length - n, by omega, fun j hj hj' => hbelow j (by omega) (by omega)⟩

/-- An equity below an earlier one goes on with the stretch in front of it. -/
theorem isGreatest_lastStretches_concat {E : List K} {e : K} {n : Nat} (h : IsGreatest (lastStretches E) n)
    (hbelow : IsBelow (E ++ [e]) E.length) : IsGreatest (lastStretches (E ++ [e])) (n + 1) := by
  have hlength : (E ++ [e]).length = E.length + 1 := List.length_append
  constructor
  · refine ⟨by have := h.1.1; omega, fun j hj hj' => ?_⟩
    rcases Nat.lt_or_ge j E.length with hlt | hge
    · exact (isBelow_concat hlt).mpr (h.1.2 j (by omega) hlt)
    · obtain rfl : j = E.length := by omega
      exact hbelow
  · rintro m ⟨hm, hall⟩
    have hshorter : m - 1 ∈ lastStretches E :=
      ⟨by omega, fun j hj hj' => (isBelow_concat hj').mp (hall j (by omega) (by omega))⟩
    have := h.2 hshorter
    omega

/-- An equity at the peak ends every stretch. -/
theorem isGreatest_lastStretches_zero {E : List K} {e : K} (hbelow : ¬ IsBelow (E ++ [e]) E.length) :
    IsGreatest (lastStretches (E ++ [e])) 0 := by
  have hlength : (E ++ [e]).length = E.length + 1 := List.length_append
  constructor
  · exact ⟨Nat.zero_le _, fun j hj hj' => by omega⟩
  · rintro m ⟨hm, hall⟩
    by_contra hpos
    exact hbelow (hall E.length (by omega) (by omega))

/-! ## The walk -/

/-- What a walk remembers of the equities that it has seen. -/
structure Walk.Tracks (E : List K) (w : Walk K) : Prop where
  peak : IsGreatest {x | x ∈ E} w.peak
  positive : 0 < w.peak
  deepest : IsGreatest (falls E) w.deepest
  longest : IsGreatest (stretches E) w.longest
  current : IsGreatest (lastStretches E) w.current

namespace Walk

theorem step_of_peak {w : Walk K} {e : K} (h : w.peak ≤ e) : w.step e = { w with peak := e, current := 0 } :=
  if_pos h

theorem step_of_below {w : Walk K} {e : K} (h : e < w.peak) (hpos : 0 < w.peak) :
    w.step e = { w with
      deepest := max w.deepest (100 * (w.peak - e) / w.peak)
      current := w.current + 1
      longest := max w.longest (w.current + 1) } := by
  rw [step, if_neg (not_le.mpr h), if_pos (by rwa [Nat.cast_zero]), larger_eq, Nat.cast_ofNat, div_mul_eq_mul_div,
    mul_comm]

theorem Tracks.deepest_nonneg {E : List K} {w : Walk K} (h : w.Tracks E) : 0 ≤ w.deepest :=
  h.deepest.2 (zero_mem_falls h.peak.1 h.positive)

/-- One more equity. -/
theorem Tracks.step {E : List K} {w : Walk K} (h : w.Tracks E) {e : K} (he : 0 ≤ e) :
    (w.step e).Tracks (E ++ [e]) := by
  have hpeak : IsGreatest {x | x ∈ E ++ [e]} (max w.peak e) := by
    have hmem : {x | x ∈ E ++ [e]} = {x | x ∈ E} ∪ {e} := by
      ext x
      exact List.mem_append.trans (or_congr_right List.mem_singleton)
    exact hmem ▸ h.peak.union isGreatest_singleton
  have hpositive : 0 < max w.peak e := lt_max_of_lt_left h.positive
  have hdeepest := h.deepest.union (isGreatest_fallsTo hpeak hpositive he)
  rw [← falls_concat] at hdeepest
  rcases le_or_gt w.peak e with hle | hlt
  · -- a new peak: it ends the last stretch, and no fall to it is deeper than none
    rw [max_eq_right hle] at hpeak hpositive hdeepest
    have hnot : ¬ IsBelow (E ++ [e]) E.length := fun hbelow => hle.not_gt ((isBelow_last h.peak).mp hbelow)
    have hcurrent := isGreatest_lastStretches_zero hnot
    have hlongest := h.longest.union hcurrent
    rw [← stretches_concat, max_eq_left (Nat.zero_le _)] at hlongest
    rw [sub_self, mul_zero, zero_div, max_eq_left h.deepest_nonneg] at hdeepest
    rw [step_of_peak hle]
    exact ⟨hpeak, hpositive, hdeepest, hlongest, hcurrent⟩
  · -- below the peak: the last stretch goes on
    rw [max_eq_left hlt.le] at hpeak hdeepest
    have hcurrent := isGreatest_lastStretches_concat h.current ((isBelow_last h.peak).mpr hlt)
    have hlongest := h.longest.union hcurrent
    rw [← stretches_concat] at hlongest
    rw [step_of_below hlt h.positive]
    exact ⟨hpeak, h.positive, hdeepest, hlongest, hcurrent⟩

/-- All equities, one after the other. -/
theorem Tracks.foldl {E : List K} {w : Walk K} (h : w.Tracks E) {more : List K} (hmore : ∀ e ∈ more, 0 ≤ e) :
    (more.foldl Walk.step w).Tracks (E ++ more) := by
  induction more generalizing E w with
  | nil => rwa [List.append_nil]
  | cons e more ih =>
    obtain ⟨he, hrest⟩ := List.forall_mem_cons.mp hmore
    rw [List.foldl_cons, ← List.singleton_append, ← List.append_assoc]
    exact ih (h.step he) hrest

/-- The walk at its first equity. -/
def first {α : Type} [Scalar α] (x : α) : Walk α := ⟨x, (0 : Nat), 0, 0⟩

theorem tracks_first {x : K} (hx : 0 < x) : (first x).Tracks [x] := by
  have hpeak : IsGreatest {y | y ∈ [] ++ [x]} x :=
    ⟨List.mem_singleton.mpr rfl, fun y hy => (List.mem_singleton.mp hy).le⟩
  have hdeepest := isGreatest_fallsTo hpeak hx hx.le
  rw [← Set.empty_union (fallsTo x _), ← falls_nil (K := K), ← falls_concat, sub_self, mul_zero, zero_div] at hdeepest
  have hcurrent := isGreatest_lastStretches_zero (E := []) (not_isBelow_zero ([] ++ [x]))
  have hlongest := (isGreatest_stretches_nil (K := K)).union hcurrent
  rw [← stretches_concat] at hlongest
  refine ⟨hpeak, hx, ?_, hlongest, hcurrent⟩
  rw [first, Nat.cast_zero]
  exact hdeepest

end Walk

/-! ## The drawdown of a curve -/

/-- What the drawdown of equities has to be. -/
structure IsDrawdownOf (E : List K) (d : Drawdown K) : Prop where
  deepest : IsGreatest (falls E) d.pct
  nonneg : 0 ≤ d.pct
  le_hundred : d.pct ≤ 100
  longest : IsGreatest (stretches E) d.bars

theorem falls_le_hundred {E : List K} (hE : ∀ e ∈ E, 0 ≤ e) {d : K} (hd : d ∈ falls E) : d ≤ 100 := by
  obtain ⟨i, j, x, y, -, -, hy, hpos, rfl⟩ := hd
  have hy0 : 0 ≤ y := hE y (List.mem_of_getElem? hy)
  rw [div_le_iff₀ hpos]
  linarith

/-- The walk along a curve that begins above zero and is never negative finds its drawdown. -/
theorem isDrawdownOf_drawdown {p : EquityPoint K} {rest : List (EquityPoint K)} (hfirst : 0 < p.multiple)
    (hrest : ∀ q ∈ rest, 0 ≤ q.multiple) :
    IsDrawdownOf ((p :: rest).map (·.multiple)) (drawdown (p :: rest)) := by
  have hmultiples : ∀ e ∈ (p :: rest).map (·.multiple), 0 ≤ e := by
    rw [List.map_cons, List.forall_mem_cons, List.forall_mem_map]
    exact ⟨hfirst.le, hrest⟩
  have htracks := (Walk.tracks_first hfirst).foldl (List.forall_mem_cons.mp hmultiples).2
  rw [List.singleton_append, List.foldl_map] at htracks
  have hdrawdown : drawdown (p :: rest) =
      ⟨(rest.foldl (fun w q => Walk.step w q.multiple) (Walk.first p.multiple)).deepest,
        (rest.foldl (fun w q => Walk.step w q.multiple) (Walk.first p.multiple)).longest⟩ := by
    rw [drawdown, List.foldl_cons, Walk.step_of_peak le_rfl]
    rfl
  rw [hdrawdown]
  exact ⟨htracks.deepest, htracks.deepest_nonneg, falls_le_hundred hmultiples htracks.deepest.1, htracks.longest⟩

/-! ## Growth -/

theorem compound_nonneg (g r : K) : 0 ≤ compound g r := by
  unfold compound
  split_ifs
  · rw [Nat.cast_zero]
  · rw [larger_eq, Nat.cast_zero]
    exact le_max_right _ _

theorem growth_nonneg {g : K} (hg : 0 ≤ g) (trades : List (Trade K)) : 0 ≤ growth g trades := by
  induction trades generalizing g with
  | nil => exact hg
  | cons t trades ih => exact ih (compound_nonneg g t.returnPct)

/-- The equity at a point is the growth that the point shows. -/
theorem multiple_percent (date : Date) (g : K) : (EquityPoint.mk date (percent g)).multiple = g := by
  simp only [EquityPoint.multiple, percent, Nat.cast_one, Nat.cast_ofNat]
  rw [mul_div_cancel_right₀ _ (by norm_num : (100 : K) ≠ 0), add_sub_cancel]

end Performance

/-! ## Runs -/

namespace Rule

/-- No trade ends at the first bar of the window. -/
theorem runInOrder_exits_behind {α : Type} [Scalar α] {order : Indicator.Table α → List (Indicator.Series α)}
    {r : Rule α} {bars : List (Bar α)} {w : Window} {run : Run α} (hrun : r.runInOrder order bars w = .ok run)
    {first : Bar α} {rest : List (Bar α)} (hwindow : run.window = first :: rest) :
    ∀ t ∈ run.trades, first.date < t.exitDate := by
  obtain ⟨-, hdates, -⟩ := runInOrder_dates hrun
  obtain ⟨marked, -, -, -, -, -, trades, hsim, rfl⟩ := runInOrder_eq_ok_iff.mp hrun
  rw [simulate_eq_ok_iff, holdings, ← List.zip_of_prod rfl rfl] at hsim
  obtain ⟨rfl, -⟩ := hsim
  obtain ⟨⟨bar, fires⟩, behind, rfl, rfl, rfl⟩ := List.map_eq_cons_iff.mp hwindow
  have hexits : ((holdingsFrom none ((bar, fires) :: behind)).map (·.exit)).Sublist (behind.map (·.1)) := by
    rw [holdingsFrom]
    split_ifs
    · exact exits_sublist behind (some bar)
    · exact exits_sublist behind none
  intro t ht
  obtain ⟨h, hh, rfl⟩ := List.mem_map.mp ht
  have hexit : h.exit ∈ behind.map (·.1) := hexits.subset (List.mem_map_of_mem hh)
  exact (List.pairwise_cons.mp hdates).1 _ (List.mem_map_of_mem hexit)

variable {K : Type} [OrderedField K]

/-- **The drawdown of a run.** With exact arithmetic, the percentage is the greatest of all falls of the equity from a
bar to a later one, and lies between zero and a hundred; and the duration is the greatest number of bars in a row on
which the equity is below that of some earlier bar. -/
theorem runInOrder_drawdown {order : Indicator.Table K → List (Indicator.Series K)} {r : Rule K} {bars : List (Bar K)}
    {w : Window} {run : Run K} (hrun : r.runInOrder order bars w = .ok run) :
    Performance.IsDrawdownOf ((Performance.ofRun run).equity.map (·.multiple))
      (Performance.ofRun run).statistics.drawdown := by
  obtain ⟨hne, -, -⟩ := runInOrder_dates hrun
  obtain ⟨first, rest, hwindow⟩ := List.exists_cons_of_ne_nil hne
  have hnone : run.trades.filter (·.exitDate ≤ first.date) = [] :=
    Performance.filter_later (runInOrder_exits_behind hrun hwindow)
  show Performance.IsDrawdownOf _ (Performance.drawdown (Performance.ofRun run).equity)
  rw [equity_of_runInOrder hrun, hwindow, List.map_cons]
  refine Performance.isDrawdownOf_drawdown ?_ (List.forall_mem_map.mpr fun bar _ => ?_)
  · rw [Performance.multiple_percent, hnone, Nat.cast_one]
    exact zero_lt_one
  · rw [Performance.multiple_percent, Nat.cast_one]
    exact Performance.growth_nonneg zero_le_one _

/-- The rule that buys while the price stands above the mean of two closes. -/
def overMean : Rule ℚ := ⟨"ACME", .long, [⟨.source .price, .greater, .source (.indicator (.sma 2) .value)⟩], .all⟩

/-- A loss of a half that is won back over three bars, and a smaller one at the end. -/
theorem runInOrder_drawdown_overMean :
    ∃ run : Run ℚ, overMean.runInOrder id (Bar.aroundCloses [4, 6, 3, 4, 9, 8, 10, 6]) .everything = .ok run ∧
      (Performance.ofRun run).equity.map (·.multiple) = [1, 1, 1 / 2, 1 / 2, 1 / 2, 1, 1, 3 / 5] ∧
      (Performance.ofRun run).statistics.drawdown = ⟨50, 3⟩ ∧
      Performance.IsDrawdownOf ((Performance.ofRun run).equity.map (·.multiple))
        (Performance.ofRun run).statistics.drawdown := by
  have hresult : (overMean.runInOrder id (Bar.aroundCloses [4, 6, 3, 4, 9, 8, 10, 6]) .everything).toOption.map
      (fun run => ((Performance.ofRun run).equity.map (·.multiple), (Performance.ofRun run).statistics.drawdown.pct,
        (Performance.ofRun run).statistics.drawdown.bars)) =
      some ([1, 1, 1 / 2, 1 / 2, 1 / 2, 1, 1, 3 / 5], 50, 3) := by
    decide +kernel
  cases hrun : overMean.runInOrder id (Bar.aroundCloses [4, 6, 3, 4, 9, 8, 10, 6]) .everything with
  | error fault =>
    rw [hrun] at hresult
    cases hresult
  | ok run =>
    rw [hrun] at hresult
    simp only [Except.toOption, Option.map_some, Option.some.injEq, Prod.mk.injEq] at hresult
    obtain ⟨hequity, hpct, hbars⟩ := hresult
    refine ⟨run, rfl, hequity, ?_, runInOrder_drawdown hrun⟩
    rw [← hpct, ← hbars]

end Rule

end Backtest
