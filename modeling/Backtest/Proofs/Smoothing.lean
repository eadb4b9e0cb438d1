import Backtest.Proofs.Windows

/-!
# Averages lie within what they average

With exact arithmetic, an average never leaves the range of the numbers that have gone into it. For the mean of a window
that is a fact about sums (`average_mem_Icc`). The other averages begin with such a mean and then take one number
after the other, each with a share between 0 and 1 (`Blends`): `2 / (n + 1)` for the exponential mean, `1 / n` for the
smoothed one. A step of that kind stays in every interval that holds the average so far and the newcomer
(`Blends.mem_Icc`), so the walk along the list stays in every interval that holds all numbers up to there
(`Blends.running_mem_Icc`), and the smallest one of these reaches from the least to the greatest number
(`liesWithin_of_forall_Icc`).

`averages_liesWithin` says this of the three indicators that are averages. Which numbers the average true range is made
from is said apart from the program's list of them, by `IsTrueRanges`.
-/

namespace Backtest.Indicator

open Exact

variable {K : Type} [OrderedField K]

/-! ## What is averaged -/

/-- The entries of a list from an index on, up to another one. -/
def entriesIn (xs : List K) (first last : ℕ) : Set K := {x | ∃ k, first ≤ k ∧ k ≤ last ∧ xs[k]? = some x}

/-- A number between the least and the greatest of some numbers. -/
def LiesWithin (S : Set K) (v : K) : Prop := ∃ low high, IsLeast S low ∧ IsGreatest S high ∧ low ≤ v ∧ v ≤ high

/-- The true ranges of bars: the first bar has its own range, and each later one the largest of its range and the
distances of its ends from the close before. -/
structure IsTrueRanges (bars : List (Bar K)) (ranges : List K) : Prop where
  length : ranges.length = bars.length
  first : ∀ b, bars[0]? = some b → ranges[0]? = some (b.high - b.low)
  later : ∀ k previous b, bars[k]? = some previous → bars[k + 1]? = some b →
    ranges[k + 1]? = some (max (max (b.high - b.low) |b.high - previous.close|) |b.low - previous.close|)

/-- An indicator that says one number at each bar with at least `n` bars up to it and nothing before, and each time a
number within those that count at the bar. -/
structure Averages (n : ℕ) (i : Indicator) (bars : List (Bar K)) (counted : ℕ → Set K) : Prop where
  begins : ∀ index, index < bars.length → (((i.series bars).reading? index).isSome = true ↔ n ≤ index + 1)
  within : ∀ index reading, (i.series bars).reading? index = some reading →
    ∃ v, reading = .single v ∧ LiesWithin (counted index) v

omit [OrderedField K] in
theorem entriesIn_eq (xs : List K) (first last : ℕ) :
    entriesIn xs first last = {x | x ∈ (xs.take (last + 1)).drop first} := by
  ext x
  simp only [entriesIn, Set.mem_ofPred_eq, List.mem_iff_getElem?, List.getElem?_drop, List.getElem?_take]
  constructor
  · rintro ⟨k, hfirst, hlast, hk⟩
    refine ⟨k - first, ?_⟩
    rw [Nat.add_sub_cancel' hfirst, if_pos (Nat.lt_succ_of_le hlast), hk]
  · rintro ⟨k, hk⟩
    split_ifs at hk with hlast
    exact ⟨first + k, Nat.le_add_right first k, Nat.le_of_lt_succ hlast, hk⟩

/-- Of the intervals that hold some numbers, the smallest one reaches from the least to the greatest of them. -/
theorem liesWithin_of_forall_Icc {xs : List K} {v : K} (hne : xs ≠ [])
    (h : ∀ low high, (∀ x ∈ xs, x ∈ Set.Icc low high) → v ∈ Set.Icc low high) :
    LiesWithin {x | x ∈ xs} v := by
  have hnonempty := (List.toFinset_nonempty_iff xs).mpr hne
  have hleast := xs.toFinset.isLeast_min' hnonempty
  have hgreatest := xs.toFinset.isGreatest_max' hnonempty
  rw [List.coe_toFinset] at hleast hgreatest
  obtain ⟨hlow, hhigh⟩ := h _ _ fun x hx => ⟨hleast.2 hx, hgreatest.2 hx⟩
  exact ⟨_, _, hleast, hgreatest, hlow, hhigh⟩

theorem isTrueRanges_trueRanges (bars : List (Bar K)) : IsTrueRanges bars (trueRanges bars) := by
  refine ⟨causal_trueRanges.length_eq bars, fun b hb => ?_, fun k previous b hprevious hb => ?_⟩
  · cases bars with
    | nil => cases hb
    | cons c rest =>
      cases hb
      rfl
  · cases bars with
    | nil => cases hb
    | cons c rest =>
      have hrange : (trueRanges (c :: rest))[k + 1]? = some (b.trueRange previous.close) :=
        List.getElem?_zipWith_eq_some.mpr ⟨previous, b, hprevious, hb, rfl⟩
      rw [hrange, Bar.trueRange, larger_eq, larger_eq]
      rfl

/-! ## Means -/

section

variable {low high : K}

theorem average_mem_Icc {window : List K} (hne : window ≠ []) (h : ∀ x ∈ window, x ∈ Set.Icc low high) :
    average window ∈ Set.Icc low high := by
  have hpos : (0 : K) < window.length := Nat.cast_pos.mpr (List.length_pos_of_ne_nil hne)
  have hlow := window.card_nsmul_le_sum low fun x hx => (h x hx).1
  have hhigh := window.sum_le_card_nsmul high fun x hx => (h x hx).2
  rw [nsmul_eq_mul] at hlow hhigh
  exact ⟨(le_div_iff₀' hpos).mpr hlow, (div_le_iff₀' hpos).mpr hhigh⟩

/-! ## Steps and walks -/

/-- A step from one average to the next, in which the newcomer has a share and the average so far has the rest. -/
structure Blends (share : K) (step : K → K → K) : Prop where
  nonneg : 0 ≤ share
  le_one : share ≤ 1
  step_eq : ∀ average x, step average x = share * x + (1 - share) * average

theorem blends_exponentialStep {n : ℕ} (hn : n ≠ 0) : Blends (2 / ((n : K) + 1)) (Checked.exponentialStep n) := by
  have hone : (1 : K) ≤ n := Nat.one_le_cast.mpr (Nat.one_le_iff_ne_zero.mpr hn)
  refine ⟨by positivity, ?_, fun average x => ?_⟩
  · rw [div_le_one (by positivity)]
    linarith
  · rw [Checked.exponentialStep, Nat.cast_ofNat, Nat.cast_one]
    ring

theorem blends_wilderStep {n : ℕ} (hn : n ≠ 0) : Blends (1 / (n : K)) (wilderStep n) := by
  have hone : (1 : K) ≤ n := Nat.one_le_cast.mpr (Nat.one_le_iff_ne_zero.mpr hn)
  refine ⟨by positivity, ?_, fun average x => ?_⟩
  · rwa [div_le_one (by positivity)]
  · rw [wilderStep, Nat.cast_one]
    field_simp
    ring

variable {share : K} {step : K → K → K}

theorem Blends.mem_Icc (hstep : Blends share step) {average x : K} (haverage : average ∈ Set.Icc low high)
    (hx : x ∈ Set.Icc low high) : step average x ∈ Set.Icc low high := by
  rw [hstep.step_eq]
  exact convex_Icc low high hx haverage hstep.nonneg (sub_nonneg.mpr hstep.le_one) (add_sub_cancel share 1)

theorem Blends.running_mem_Icc (hstep : Blends share step) {n i : ℕ} {first : K} {xs : List K}
    (hfirst : first ∈ Set.Icc low high) (hxs : ∀ x ∈ xs.take i, x ∈ Set.Icc low high) :
    running n first step xs i ∈ Set.Icc low high := by
  -- along the numbers behind the seed, the interval is kept by each step
  refine List.foldlRecOn _ _ hfirst fun average haverage x hx => ?_
  exact hstep.mem_Icc haverage (hxs x (List.mem_of_mem_drop hx))

end

/-! ## Entries of the averages -/

section

variable {n index : ℕ} {xs : List K} {v : K}

theorem liesWithin_rollingMean (hn : n ≠ 0) (h : (rollingMean n xs)[index]? = some (some v)) :
    LiesWithin (entriesIn xs (index + 1 - n) index) v := by
  have hindex : index < xs.length := by
    have hlt := (List.getElem?_eq_some_iff.mp h).1
    rwa [(causal_rollingMean n).length_eq] at hlt
  have hfull : n ≤ index + 1 := by
    by_contra hearly
    rw [rollingMean_of_early hn hindex (not_le.mp hearly)] at h
    cases h
  rw [rollingMean_of_full hn hindex hfull] at h
  cases h
  rw [entriesIn_eq]
  have hlength := (isWindow_slice hfull hindex).length
  have hne : (xs.take (index + 1)).drop (index + 1 - n) ≠ [] := List.ne_nil_of_length_pos (by omega)
  exact liesWithin_of_forall_Icc hne fun low high hwindow => average_mem_Icc hne hwindow

/-- An average that is begun with the mean of its seed and goes on in blends. -/
theorem liesWithin_seeded {seed : List K → K} {step : K → K → K} {share : K}
    (hseed : ∀ first, first.length = n → seed first = average first) (hstep : Blends share step)
    (h : (seeded n seed step xs)[index]? = some (some v)) : LiesWithin (entriesIn xs 0 index) v := by
  obtain ⟨hn, hfull, hindex, rfl⟩ := seeded_eq_running h
  have hlength : (xs.take n).length = n := List.length_take_of_le (by omega)
  have hne : xs.take n ≠ [] := List.ne_nil_of_length_pos (by omega)
  have hsubset : xs.take n ⊆ xs.take (index + 1) := (List.take_prefix_take_left hfull).subset
  rw [entriesIn_eq, List.drop_zero, hseed _ hlength]
  refine liesWithin_of_forall_Icc (fun hnil => hne (List.subset_nil.mp (hnil ▸ hsubset))) fun low high hseen => ?_
  exact hstep.running_mem_Icc (average_mem_Icc hne fun x hx => hseen x (hsubset hx)) hseen

theorem liesWithin_exponentialMean (hn : n ≠ 0) (h : (exponentialMean n xs)[index]? = some (some v)) :
    LiesWithin (entriesIn xs 0 index) v := by
  unfold exponentialMean at h
  refine liesWithin_seeded (fun first hfirst => ?_) (blends_exponentialStep hn) h
  rw [foldl_add_eq, Nat.cast_zero, zero_add, average, hfirst]

theorem liesWithin_wilderMean (hn : n ≠ 0) (h : (wilderMean n xs)[index]? = some (some v)) :
    LiesWithin (entriesIn xs 0 index) v := by
  refine liesWithin_seeded (fun first hfirst => ?_) (blends_wilderStep hn) h
  rw [total_eq, average, hfirst]

end

/-! ## The indicators -/

/-- An indicator of one number that begins with its `n`-th entry. -/
theorem averages_of_readings {n : ℕ} {i : Indicator} {bars : List (Bar K)} {xs : List (Option K)}
    {counted : ℕ → Set K} (hxs : i.readings bars = xs.map (·.map .single))
    (hbegins : BeginsAt (n - 1) (i.readings bars))
    (hcounted : ∀ index v, xs[index]? = some (some v) → LiesWithin (counted index) v) :
    Averages n i bars counted := by
  refine ⟨fun index hindex => ?_, fun index reading hreading => ?_⟩
  · rw [← (causal_readings i).length_eq bars] at hindex
    have hentry := List.getElem?_eq_getElem hindex
    rw [reading?_series, hentry, Option.join_some, hbegins index _ hentry]
    omega
  · obtain ⟨v, rfl, hv⟩ := (reading?_single_iff hxs).mp hreading
    exact ⟨v, rfl, hcounted index v hv⟩

/-- **Averages lie within what they average.** Let the arithmetic be exact. Each indicator that is an average has a
value from the `n`-th bar on. The simple mean lies between the least and the greatest of the last `n` closes, the
exponential mean between those of all closes up to the bar, and the average true range between those of all true
ranges up to it. -/
theorem averages_liesWithin {n : ℕ} (hn : n ≠ 0) (bars : List (Bar K)) :
    Averages n (sma n) bars (fun index => entriesIn (bars.map (·.close)) (index + 1 - n) index) ∧
    Averages n (ema n) bars (fun index => entriesIn (bars.map (·.close)) 0 index) ∧
    ∃ ranges, IsTrueRanges bars ranges ∧ Averages n (atr n) bars (fun index => entriesIn ranges 0 index) := by
  refine ⟨?_, ?_, _, isTrueRanges_trueRanges bars, ?_⟩
  · exact averages_of_readings rfl ((beginsAt_rollingMean hn _).map _) fun _ _ hv => liesWithin_rollingMean hn hv
  · exact averages_of_readings rfl ((beginsAt_exponentialMean hn _).map _)
      fun _ _ hv => liesWithin_exponentialMean hn hv
  · exact averages_of_readings rfl ((beginsAt_wilderMean hn _).map _) fun _ _ hv => liesWithin_wilderMean hn hv

/-- At the last bar the simple mean is that of 5 and 6, and the others have seen the close 4 and the range 3 too. -/
theorem averages_liesWithin_aroundCloses :
    2 ≠ 0 ∧
      ((sma 2).series (Bar.aroundCloses [6, 4, 5, 6])).reading? 3 = some (.single (11 / 2)) ∧
      LiesWithin (entriesIn ((Bar.aroundCloses [6, 4, 5, 6]).map (·.close)) 2 3) (11 / 2) ∧
      ((ema 2).series (Bar.aroundCloses [6, 4, 5, 6])).reading? 3 = some (.single (17 / 3)) ∧
      LiesWithin (entriesIn ((Bar.aroundCloses [6, 4, 5, 6]).map (·.close)) 0 3) (17 / 3) ∧
      ((atr 2).series (Bar.aroundCloses [6, 4, 5, 6])).reading? 3 = some (.single (17 / 8)) ∧
      ∃ ranges, IsTrueRanges (Bar.aroundCloses [6, 4, 5, 6]) ranges ∧ ranges[1]? = some 3 ∧
        LiesWithin (entriesIn ranges 0 3) (17 / 8) := by
  have hn : 2 ≠ 0 := by decide
  obtain ⟨hsma, hema, ranges, hranges, hatr⟩ := averages_liesWithin hn (Bar.aroundCloses [6, 4, 5, 6])
  have hsimple : ((sma 2).series (Bar.aroundCloses [6, 4, 5, 6])).reading? 3 = some (.single (11 / 2)) :=
    (reading?_single_iff rfl).mpr ⟨_, rfl, by decide +kernel⟩
  have hexponential : ((ema 2).series (Bar.aroundCloses [6, 4, 5, 6])).reading? 3 = some (.single (17 / 3)) :=
    (reading?_single_iff rfl).mpr ⟨_, rfl, by decide +kernel⟩
  have hsmoothed : ((atr 2).series (Bar.aroundCloses [6, 4, 5, 6])).reading? 3 = some (.single (17 / 8)) :=
    (reading?_single_iff rfl).mpr ⟨_, rfl, by decide +kernel⟩
  have hrange : ranges[1]? = some 3 := by
    rw [hranges.later 0 _ _ rfl rfl]
    norm_num
  obtain ⟨_, ⟨⟩, hsimple'⟩ := hsma.within 3 _ hsimple
  obtain ⟨_, ⟨⟩, hexponential'⟩ := hema.within 3 _ hexponential
  obtain ⟨_, ⟨⟩, hsmoothed'⟩ := hatr.within 3 _ hsmoothed
  exact ⟨hn, hsimple, hsimple', hexponential, hexponential', hsmoothed, ranges, hranges, hrange, hsmoothed'⟩

end Backtest.Indicator
