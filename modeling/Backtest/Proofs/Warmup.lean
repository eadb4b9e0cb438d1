import Backtest.Proofs.Checked.Series
import Backtest.Proofs.Checked.Signal
import Backtest.Proofs.Trades

/-!
# Where an indicator begins

An indicator is silent at the first bars and has a value at every bar behind them. A list of entries
`BeginsAt` an index when exactly its entries from there on have a value. A seeded average begins with the last
number of its seed (`beginsAt_seeded`), a rolling mean where its window is full (`beginsAt_rollingMean`), and
what is built from them entry by entry begins where they all have begun (`BeginsAt.zipWith`).

`warmup` counts the silent bars of each indicator. It is the `lookback` that the program adds up, as long as the
fast mean of a divergence is not the longer one (`lookback_eq_warmup`): the line of a divergence begins where
the longer of its means does, and `lookback` takes the slow one for it.

`series_begins` puts together what the points of a series are: one for each bar, none with a value if a period is
zero, else from the lookback on, and with the numbers that the indicator gives.
-/

namespace Backtest.Indicator

variable {α β γ δ : Type}

/-! ## Entries that begin somewhere -/

/-- A list of which exactly the entries from an index on have a value. -/
def BeginsAt (n : Nat) (xs : List (Option β)) : Prop :=
  ∀ i v, xs[i]? = some v → (v.isSome = true ↔ n ≤ i)

namespace BeginsAt

variable {n m : Nat} {xs : List (Option β)}

theorem nil (n : Nat) : BeginsAt n ([] : List (Option β)) := by
  intro i v h
  simp at h

theorem cons {v : Option β} (hv : v.isSome = true ↔ n = 0) (h : BeginsAt (n - 1) xs) :
    BeginsAt n (v :: xs) := by
  intro i w hw
  cases i with
  | zero =>
    rw [List.getElem?_cons_zero, Option.some.injEq] at hw
    subst hw
    rw [hv]
    omega
  | succ i =>
    rw [List.getElem?_cons_succ] at hw
    rw [h i w hw]
    omega

/-- Silent entries in front put the beginning off. -/
theorem replicate_append (h : BeginsAt n xs) (m : Nat) :
    BeginsAt (m + n) (List.replicate m none ++ xs) := by
  induction m with
  | zero => simpa using h
  | succ m ih =>
    rw [List.replicate_succ, List.cons_append]
    apply cons
    · simp
    · rwa [show m + 1 + n - 1 = m + n by omega]

/-- A list that ends before its beginning is silent. -/
theorem replicate (h : m ≤ n) : BeginsAt n (List.replicate m (none : Option β)) := by
  intro i v hv
  obtain ⟨hi, rfl⟩ := List.getElem?_eq_some_iff.mp hv
  rw [List.length_replicate] at hi
  rw [List.getElem_replicate]
  simp
  omega

theorem map (h : BeginsAt n xs) (f : β → γ) : BeginsAt n (xs.map (Option.map f)) := by
  intro i v hv
  rw [List.getElem?_map, Option.map_eq_some_iff] at hv
  obtain ⟨w, hw, rfl⟩ := hv
  rw [Option.isSome_map]
  exact h i w hw

/-- What needs two entries begins where both lists have begun. -/
theorem zipWith {f : Option β → Option γ → Option δ} (hf : ∀ a b, (f a b).isSome = (a.isSome && b.isSome))
    (hx : BeginsAt n xs) {ys : List (Option γ)} (hy : BeginsAt m ys) :
    BeginsAt (max n m) (List.zipWith f xs ys) := by
  intro i v hv
  obtain ⟨a, b, ha, hb, rfl⟩ := List.getElem?_zipWith_eq_some.mp hv
  rw [hf, Bool.and_eq_true, hx i a ha, hy i b hb]
  omega

/-- What is said of an entry with a number beside it begins where the entries do. -/
theorem zipWith_map (h : BeginsAt n xs) (f : γ → β → δ) (ys : List γ) :
    BeginsAt n (List.zipWith (fun y x => x.map (f y)) ys xs) := by
  intro i v hv
  obtain ⟨y, x, -, hx, rfl⟩ := List.getElem?_zipWith_eq_some.mp hv
  rw [Option.isSome_map]
  exact h i x hx

end BeginsAt

/-! ## Averages -/

theorem beginsAt_runningFrom (step : α → α → α) (average : α) (xs : List α) :
    BeginsAt 0 (runningFrom step average xs) := by
  induction xs generalizing average with
  | nil => exact .nil 0
  | cons x xs ih => exact .cons (by simp) (ih _)

/-- A seeded average begins with the last number of its seed. -/
theorem beginsAt_seeded {n : Nat} (hn : n ≠ 0) (seed : List α → α) (step : α → α → α) (xs : List α) :
    BeginsAt (n - 1) (seeded n seed step xs) := by
  by_cases h : n ≤ xs.length
  · rw [seeded_of_le hn h]
    have hrun : BeginsAt 0 (some (seed (xs.take n)) :: runningFrom step (seed (xs.take n)) (xs.drop n)) :=
      .cons (by simp) (beginsAt_runningFrom _ _ _)
    exact hrun.replicate_append (n - 1)
  · rw [seeded_of_short (.inr (by omega)), List.map_const']
    exact .replicate (by omega)

variable [Scalar α]

theorem beginsAt_rollingFrom (n : Nat) (xs : List α) :
    ∀ seen sum leaving, BeginsAt (n - 1 - seen) (rollingFrom n seen sum leaving xs) := by
  induction xs with
  | nil => exact fun seen sum leaving => .nil _
  | cons x xs ih =>
    intro seen sum leaving
    rw [rollingFrom]
    apply BeginsAt.cons
    · by_cases hfull : n ≤ seen + 1
      · rw [if_pos hfull]
        simp
        omega
      · rw [if_neg hfull]
        simp
        omega
    · rw [show n - 1 - seen - 1 = n - 1 - (seen + 1) by omega]
      exact ih _ _ _

/-- A rolling mean begins where its window is full. -/
theorem beginsAt_rollingMean {n : Nat} (hn : n ≠ 0) (xs : List α) : BeginsAt (n - 1) (rollingMean n xs) := by
  rw [rollingMean, if_neg hn]
  exact beginsAt_rollingFrom n xs 0 _ _

theorem beginsAt_exponentialMean {n : Nat} (hn : n ≠ 0) (xs : List α) :
    BeginsAt (n - 1) (exponentialMean n xs) := by
  unfold exponentialMean
  exact beginsAt_seeded hn _ _ xs

theorem beginsAt_wilderMean {n : Nat} (hn : n ≠ 0) (xs : List α) : BeginsAt (n - 1) (wilderMean n xs) := by
  unfold wilderMean
  exact beginsAt_seeded hn _ _ xs

/-! ## Strength, divergence and bands -/

/-- There is no change at the first close, so the strength of `n` changes begins one close later. -/
theorem beginsAt_relativeStrength {n : Nat} (hn : n ≠ 0) (closes : List α) :
    BeginsAt n (relativeStrength n closes) := by
  cases closes with
  | nil => exact .nil n
  | cons c rest =>
    have hmean (f : α → α) : BeginsAt (n - 1) (wilderMean n ((changes (c :: rest)).map f)) :=
      beginsAt_wilderMean hn _
    have hzip := BeginsAt.zipWith (f := fun g l => do pure (strength (← g) (← l)))
      (by rintro (_ | g) (_ | l) <;> rfl) (hmean gain) (hmean loss)
    rw [Nat.max_self] at hzip
    exact .cons (by simp [hn]) hzip

/-- The signal of a divergence is seeded from where the longer of its means begins. -/
theorem beginsAt_divergence {fast slow signal : Nat} (hf : fast ≠ 0) (hs : slow ≠ 0) (hg : signal ≠ 0)
    (closes : List α) :
    BeginsAt (max slow fast - 1 + (signal - 1)) (divergence fast slow signal closes) := by
  by_cases hshort : closes.length < slow
  · rw [divergence, if_pos (by omega), List.map_const']
    exact .replicate (by omega)
  · have hline := length_divergenceLine hf hs closes
    rw [Checked.divergence_of_long (by omega)]
    by_cases hlong : max slow fast - 1 ≤ closes.length
    · rw [Nat.min_eq_left hlong]
      apply BeginsAt.replicate_append
      exact (beginsAt_exponentialMean hg _).zipWith_map (fun l s => Reading.macd l s (l - s)) _
    · -- the fast mean is the longer one, and the bars end before it begins
      have hnil : divergenceLine fast slow closes = [] := List.eq_nil_of_length_eq_zero (by omega)
      rw [hnil, List.zipWith_nil_left, List.append_nil]
      exact .replicate (by omega)

theorem beginsAt_bands {n : Nat} (hn : n ≠ 0) (hundredths : Nat) (closes : List α) :
    BeginsAt (n - 1) (bands n hundredths closes) := by
  intro i v hv
  rw [Checked.bands_getElem?, Option.map_eq_some_iff] at hv
  obtain ⟨mean, hmean, rfl⟩ := hv
  rw [Option.isSome_map]
  exact beginsAt_rollingMean hn closes i mean hmean

/-! ## Readings -/

omit [Scalar α] in
/-- The number of silent bars of an indicator, if no period is zero. -/
def warmup : Indicator → Nat
  | .sma n | .ema n | .atr n | .bollinger n _ => n - 1
  | .rsi n => n
  | .macd fast slow signal => max slow fast - 1 + (signal - 1)

/-- Periods whose lookback can be counted and is the warm-up: none is zero, and the fast mean of a divergence is
not the longer one. -/
structure IsRegular (i : Indicator) : Prop where
  nonzero : 0 ∉ Candidate.periods i
  ordered : ∀ fast slow signal, i = .macd fast slow signal → fast ≤ slow ∧ slow + signal < 2 ^ 64

theorem IsRegular.lookback_eq_warmup {i : Indicator} (h : i.IsRegular) : i.lookback = i.warmup := by
  cases i with
  | macd fast slow signal =>
    obtain ⟨hle, -⟩ := h.ordered fast slow signal rfl
    rw [lookback, warmup, Nat.max_eq_left hle]
  | _ => rfl

theorem IsRegular.indicatorLookback_eq {i : Indicator} (h : i.IsRegular) :
    Checked.indicatorLookback i = .ok i.lookback := by
  cases i with
  | macd fast slow signal =>
    obtain ⟨-, hsum⟩ := h.ordered fast slow signal rfl
    exact Checked.add_eq (by omega)
  | _ => rfl

theorem beginsAt_readings {i : Indicator} (h : 0 ∉ Candidate.periods i) (bars : List (Bar α)) :
    BeginsAt i.warmup (i.readings bars) := by
  have hne : ∀ n ∈ Candidate.periods i, n ≠ 0 := by
    rintro n hn rfl
    exact h hn
  cases i with
  | sma n => exact (beginsAt_rollingMean (hne n (by simp [Candidate.periods])) _).map _
  | ema n => exact (beginsAt_exponentialMean (hne n (by simp [Candidate.periods])) _).map _
  | rsi n => exact (beginsAt_relativeStrength (hne n (by simp [Candidate.periods])) _).map _
  | atr n => exact (beginsAt_wilderMean (hne n (by simp [Candidate.periods])) _).map _
  | macd fast slow signal =>
    exact beginsAt_divergence (hne fast (by simp [Candidate.periods])) (hne slow (by simp [Candidate.periods]))
      (hne signal (by simp [Candidate.periods])) _
  | bollinger n hundredths => exact beginsAt_bands (hne n (by simp [Candidate.periods])) hundredths _

theorem rollingMean_zero (xs : List α) : rollingMean 0 xs = xs.map fun _ => none := if_pos rfl

theorem exponentialMean_zero (xs : List α) : exponentialMean 0 xs = xs.map fun _ => none := by
  rw [exponentialMean, seeded_of_short (.inl rfl)]

theorem wilderMean_zero (xs : List α) : wilderMean 0 xs = xs.map fun _ => none := seeded_of_short (.inl rfl)

/-- A period of zero silences an indicator. -/
theorem readings_of_zero {i : Indicator} (h : 0 ∈ Candidate.periods i) (bars : List (Bar α)) :
    ∀ reading ∈ i.readings bars, reading = none := by
  cases i with
  | sma n =>
    obtain rfl : 0 = n := by simpa [Candidate.periods] using h
    simp [readings, rollingMean_zero]
  | ema n =>
    obtain rfl : 0 = n := by simpa [Candidate.periods] using h
    simp [readings, exponentialMean_zero]
  | rsi n =>
    obtain rfl : 0 = n := by simpa [Candidate.periods] using h
    simp [readings, Checked.relativeStrength_of_short]
  | atr n =>
    obtain rfl : 0 = n := by simpa [Candidate.periods] using h
    simp [readings, averageTrueRange, wilderMean_zero]
  | macd fast slow signal =>
    have hzero : fast = 0 ∨ slow = 0 ∨ signal = 0 := by simpa [Candidate.periods, eq_comm] using h
    rw [readings, divergence, if_pos (by omega)]
    simp
  | bollinger n hundredths =>
    obtain rfl : 0 = n := by simpa [Candidate.periods] using h
    intro reading hmem
    obtain ⟨index, hindex⟩ := List.mem_iff_getElem?.mp hmem
    rw [readings, Checked.bands_getElem?, rollingMean_zero, List.map_map, List.getElem?_map, Option.map_map,
      Option.map_eq_some_iff] at hindex
    obtain ⟨bar, -, rfl⟩ := hindex
    rfl

omit [Scalar α] in
/-- Whether a reading holds the numbers that the indicator gives. -/
def hasShape : Indicator → Reading α → Bool
  | .sma _, .single _ | .ema _, .single _ | .rsi _, .single _ | .atr _, .single _ => true
  | .macd .., .macd .. => true
  | .bollinger .., .bands .. => true
  | _, _ => false

theorem hasShape_of_mem_readings {i : Indicator} {bars : List (Bar α)} {reading : Reading α}
    (h : some reading ∈ i.readings bars) : i.hasShape reading = true := by
  have hsingle : ∀ xs : List (Option α), some reading ∈ xs.map (Option.map Reading.single) →
      ∃ v, reading = .single v := by
    intro xs hmem
    obtain ⟨_ | v, -, hv⟩ := List.mem_map.mp hmem
    · cases hv
    · exact ⟨v, (Option.some.inj hv).symm⟩
  cases i with
  | sma | ema | rsi | atr =>
    obtain ⟨v, rfl⟩ := hsingle _ h
    rfl
  | macd fast slow signal =>
    rw [readings, divergence] at h
    split_ifs at h with hshort
    · simp at h
    · rcases List.mem_append.mp h with hfront | hback
      · simp at hfront
      · obtain ⟨k, hk⟩ := List.mem_iff_getElem?.mp hback
        obtain ⟨l, _ | s, -, -, heq⟩ := List.getElem?_zipWith_eq_some.mp hk
        · cases heq
        · rw [← Option.some.inj heq]
          rfl
  | bollinger n hundredths =>
    obtain ⟨k, hk⟩ := List.mem_iff_getElem?.mp h
    rw [readings, Checked.bands_getElem?] at hk
    obtain ⟨_ | middle, -, heq⟩ := Option.map_eq_some_iff.mp hk
    · cases heq
    · rw [← Option.some.inj heq]
      rfl

/-! ## Series -/

/-- The points of a series, bar by bar. -/
theorem getElem?_points {i : Indicator} {bars : List (Bar α)} {index : Nat} {p : Point α} :
    (i.series bars).points[index]? = some p ↔
      ∃ b reading, bars[index]? = some b ∧ (i.readings bars)[index]? = some reading ∧ ⟨b.date, reading⟩ = p :=
  List.getElem?_zipWith_eq_some

theorem getElem?_points_of_readings {i : Indicator} {bars : List (Bar α)} {index : Nat} {b : Bar α}
    {reading : Option (Reading α)} (hb : bars[index]? = some b) (hreading : (i.readings bars)[index]? = some reading) :
    (i.series bars).points[index]? = some ⟨b.date, reading⟩ :=
  getElem?_points.mpr ⟨b, reading, hb, hreading, rfl⟩

omit [Scalar α] in
/-- What the point of a series says at an index. -/
def Series.reading? (s : Series α) (index : Nat) : Option (Reading α) := (s.points[index]?).bind (·.reading)

theorem reading?_series (i : Indicator) (bars : List (Bar α)) (index : Nat) :
    (i.series bars).reading? index = (i.readings bars)[index]?.join := by
  have hlength := (causal_readings i).length_eq bars
  rw [Series.reading?, series, List.getElem?_zipWith]
  rcases Nat.lt_or_ge index bars.length with hi | hi
  · rw [List.getElem?_eq_getElem hi, List.getElem?_eq_getElem (by rwa [hlength])]
    rfl
  · rw [List.getElem?_eq_none hi, List.getElem?_eq_none (by rwa [hlength])]
    rfl

/-- What an indicator of one number says at a bar. -/
theorem reading?_single_iff {i : Indicator} {bars : List (Bar α)} {xs : List (Option α)}
    (hxs : i.readings bars = xs.map (·.map .single)) {index : Nat} {reading : Reading α} :
    (i.series bars).reading? index = some reading ↔ ∃ v, reading = .single v ∧ xs[index]? = some (some v) := by
  rw [reading?_series, hxs, Option.join_eq_some_iff, List.getElem?_map, Option.map_eq_some_iff]
  constructor
  · rintro ⟨_ | v, hv, hreading⟩
    · cases hreading
    · exact ⟨v, (Option.some.inj hreading).symm, hv⟩
  · rintro ⟨v, rfl, hv⟩
    exact ⟨some v, hv, rfl⟩

theorem map_date_points (i : Indicator) (bars : List (Bar α)) :
    (i.series bars).points.map (·.date) = bars.map (·.date) := by
  have hlength := (causal_readings i).length_eq bars
  rw [series, List.map_zipWith]
  apply List.ext_getElem
  · simp [hlength]
  · intro index _ _
    simp

/-- **The points of a series.** An indicator is computed along the bars without a position that is not there. It has one
point for each bar, with the bar's date. With a period of zero it is silent; else its lookback can be counted, and
it has a value at exactly the bars from the lookback on, with the numbers that the indicator gives. -/
theorem series_begins (i : Indicator) (bars : List (Bar α)) :
    (bars.length < 2 ^ 64 → Checked.points i bars = .ok (i.series bars).points) ∧
      (i.series bars).points.map (·.date) = bars.map (·.date) ∧
      (0 ∈ Candidate.periods i → ∀ p ∈ (i.series bars).points, p.reading = none) ∧
      (i.IsRegular → Checked.indicatorLookback i = .ok i.lookback ∧
        ∀ index p, (i.series bars).points[index]? = some p → (p.reading.isSome = true ↔ i.lookback ≤ index)) ∧
      ∀ p ∈ (i.series bars).points, ∀ reading, p.reading = some reading → i.hasShape reading = true := by
  refine ⟨Checked.points_eq i, map_date_points i bars, fun hzero p hp => ?_, fun hi => ⟨hi.indicatorLookback_eq, ?_⟩,
    fun p hp reading hreading => ?_⟩
  · obtain ⟨index, hindex⟩ := List.mem_iff_getElem?.mp hp
    obtain ⟨b, reading, -, hreading, rfl⟩ := getElem?_points.mp hindex
    exact readings_of_zero hzero bars reading (List.mem_of_getElem? hreading)
  · intro index p hp
    obtain ⟨b, reading, -, hreading, rfl⟩ := getElem?_points.mp hp
    rw [hi.lookback_eq_warmup]
    exact beginsAt_readings hi.nonzero bars index reading hreading
  · obtain ⟨index, hindex⟩ := List.mem_iff_getElem?.mp hp
    obtain ⟨b, _, -, hmem, rfl⟩ := getElem?_points.mp hindex
    dsimp only at hreading
    rw [hreading] at hmem
    exact hasShape_of_mem_readings (List.mem_of_getElem? hmem)

/-- The last of four bars is the first one at which a divergence of periods 2, 3 and 2 has a value. -/
theorem series_begins_divergence :
    (macd 2 3 2).IsRegular ∧ (Bar.flatHistory [1, 2, 4, 3]).length < 2 ^ 64 ∧
      Checked.points (macd 2 3 2) (Bar.flatHistory [1, 2, 4, 3]) =
        .ok ((macd 2 3 2).series (Bar.flatHistory [1, 2, 4, 3])).points ∧
      ∀ index p, ((macd 2 3 2).series (Bar.flatHistory [1, 2, 4, 3])).points[index]? = some p →
        (p.reading.isSome = true ↔ 3 ≤ index) := by
  have hregular : (macd 2 3 2).IsRegular := by
    refine ⟨by decide, ?_⟩
    rintro _ _ _ ⟨⟩
    decide
  have hlength : (Bar.flatHistory [1, 2, 4, 3]).length < 2 ^ 64 := by decide
  obtain ⟨hpoints, -, -, hbegins, -⟩ := series_begins (macd 2 3 2) (Bar.flatHistory [1, 2, 4, 3])
  exact ⟨hregular, hlength, hpoints hlength, (hbegins hregular).2⟩

end Backtest.Indicator
