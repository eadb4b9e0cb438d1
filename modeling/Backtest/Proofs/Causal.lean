import Mathlib.Data.List.Infix
import Backtest.Indicator.Series

/-!
# Indicators do not look ahead

A function along a list is `Causal` when it gives one entry for each element, and a longer list leaves
the entries of a shorter one as they are. Averages are causal because each walks along its list
(`causal_rollingMean`, `causal_seeded`); what is built from them entry by entry is causal by
`Causal.comp` and `Causal.zipWith`. Three places need more than that:

* An average that is begun with the first `n` numbers has no entry at all while there are fewer, so the
  first case of `seeded` must agree with the empty head of the second.
* The line of a divergence begins behind the entries that are missing, and is as long as the rest
  (`length_divergenceLine`).
* Bands cut the window of an index out of the closes a second time (`windowAt_append`).

`causal_readings`: what an indicator says at a bar depends on the bars up to there alone.
-/

namespace Backtest

variable {β γ δ : Type}

/-! ## Causal functions -/

/-- Along a list, one entry for each element, which what follows does not change. -/
structure Causal (f : List β → List γ) : Prop where
  length_eq : ∀ xs, (f xs).length = xs.length
  stable : ∀ xs ys, f xs <+: f (xs ++ ys)

theorem Causal.getElem?_append {f : List β → List γ} (hf : Causal f) {xs ys : List β} {i : Nat}
    (hi : i < xs.length) : (f (xs ++ ys))[i]? = (f xs)[i]? := by
  obtain ⟨zs, hzs⟩ := hf.stable xs ys
  rw [← hzs, List.getElem?_append_left (by rw [hf.length_eq]; exact hi)]

/-- What is computed of the first elements are the first entries. -/
theorem Causal.take {f : List β → List γ} (hf : Causal f) (xs : List β) (k : Nat) :
    f (xs.take k) = (f xs).take k := by
  have hprefix : f (xs.take k) <+: f xs := by
    have hstable := hf.stable (xs.take k) (xs.drop k)
    rwa [List.take_append_drop] at hstable
  rw [List.prefix_iff_eq_take.mp hprefix, hf.length_eq, List.length_take]
  by_cases hk : k ≤ xs.length
  · rw [Nat.min_eq_left hk]
  · rw [Nat.min_eq_right (by omega), List.take_of_length_le (by rw [hf.length_eq]),
      List.take_of_length_le (by rw [hf.length_eq]; omega)]

theorem causal_map (g : β → γ) : Causal (List.map g) where
  length_eq _ := List.length_map g
  stable xs ys := by
    rw [List.map_append]
    exact List.prefix_append _ _

theorem causal_id : Causal fun xs : List β => xs where
  length_eq _ := rfl
  stable := List.prefix_append

theorem Causal.comp {g : List γ → List δ} {f : List β → List γ} (hg : Causal g) (hf : Causal f) :
    Causal fun xs => g (f xs) where
  length_eq xs := by rw [hg.length_eq, hf.length_eq]
  stable xs ys := by
    obtain ⟨zs, hzs⟩ := hf.stable xs ys
    rw [← hzs]
    exact hg.stable _ _

theorem zipWith_isPrefix (h : β → γ → δ) {as as' : List β} {bs bs' : List γ} (ha : as <+: as')
    (hb : bs <+: bs') : List.zipWith h as bs <+: List.zipWith h as' bs' := by
  obtain ⟨s, rfl⟩ := ha
  obtain ⟨t, rfl⟩ := hb
  induction as generalizing bs with
  | nil => exact List.nil_prefix
  | cons a as ih =>
    cases bs with
    | nil => exact List.nil_prefix
    | cons b bs =>
      simp only [List.cons_append, List.zipWith_cons_cons, List.prefix_cons_inj]
      exact ih

theorem Causal.zipWith {f : List β → List γ} {g : List β → List δ} {ε : Type} (h : γ → δ → ε)
    (hf : Causal f) (hg : Causal g) : Causal fun xs => List.zipWith h (f xs) (g xs) where
  length_eq xs := by rw [List.length_zipWith, hf.length_eq, hg.length_eq, Nat.min_self]
  stable xs ys := zipWith_isPrefix h (hf.stable xs ys) (hg.stable xs ys)

theorem replicate_isPrefix {m n : Nat} (h : m ≤ n) (a : γ) (rest : List γ) :
    List.replicate m a <+: List.replicate n a ++ rest := by
  rw [show n = m + (n - m) by omega, List.replicate_add, List.append_assoc]
  exact List.prefix_append _ _

namespace Indicator

variable {α : Type}

/-! ## Seeded averages -/

theorem causal_runningFrom (step : α → α → α) (average : α) : Causal (runningFrom step average) := by
  constructor
  · intro xs
    induction xs generalizing average with
    | nil => rfl
    | cons x xs ih => simp [runningFrom, ih]
  · intro xs ys
    induction xs generalizing average with
    | nil => exact List.nil_prefix
    | cons x xs ih =>
      rw [List.cons_append, runningFrom, runningFrom, List.prefix_cons_inj]
      exact ih _

theorem seeded_of_short {n : Nat} {seed : List α → α} {step : α → α → α} {xs : List α}
    (h : n = 0 ∨ xs.length < n) : seeded n seed step xs = xs.map fun _ => none := if_pos h

theorem seeded_of_le {n : Nat} {seed : List α → α} {step : α → α → α} {xs : List α} (hn : n ≠ 0)
    (h : n ≤ xs.length) :
    seeded n seed step xs = List.replicate (n - 1) none ++
      some (seed (xs.take n)) :: runningFrom step (seed (xs.take n)) (xs.drop n) :=
  if_neg (by omega)

theorem causal_seeded (n : Nat) (seed : List α → α) (step : α → α → α) :
    Causal (seeded n seed step) := by
  constructor
  · intro xs
    by_cases h : n = 0 ∨ xs.length < n
    · rw [seeded_of_short h, List.length_map]
    · rw [seeded_of_le (by omega) (by omega)]
      simp only [List.length_append, List.length_replicate, List.length_cons,
        (causal_runningFrom step _).length_eq, List.length_drop]
      omega
  · intro xs ys
    by_cases h : n = 0 ∨ xs.length < n
    · rw [seeded_of_short h]
      by_cases h' : n = 0 ∨ (xs ++ ys).length < n
      · rw [seeded_of_short h', List.map_append]
        exact List.prefix_append _ _
      · rw [seeded_of_le (by omega) (by omega), List.map_const']
        exact replicate_isPrefix (by omega) none _
    · rw [seeded_of_le (by omega) (by omega),
        seeded_of_le (by omega) (by rw [List.length_append]; omega),
        List.take_append_of_le_length (by omega), List.drop_append_of_le_length (by omega),
        List.prefix_append_right_inj, List.prefix_cons_inj]
      exact (causal_runningFrom step _).stable _ _

/-- From the end of the seed on there is an average at each number. -/
theorem seeded_isSome {n : Nat} {seed : List α → α} {step : α → α → α} {xs : List α} {i : Nat}
    {v : Option α} (hn : n ≠ 0) (hi : n - 1 ≤ i) (hv : (seeded n seed step xs)[i]? = some v) :
    v.isSome := by
  have hrun : ∀ (average : α) (zs : List α) (j : Nat) (w : Option α),
      (runningFrom step average zs)[j]? = some w → w.isSome := by
    intro average zs
    induction zs generalizing average with
    | nil => intro j w h; simp [runningFrom] at h
    | cons z zs ih =>
      intro j w h
      rw [runningFrom] at h
      cases j with
      | zero =>
        rw [List.getElem?_cons_zero, Option.some.injEq] at h
        rw [← h]
        rfl
      | succ j => exact ih _ j w h
  have hlen : i < xs.length := by
    have := (List.getElem?_eq_some_iff.mp hv).1
    rwa [(causal_seeded n seed step).length_eq] at this
  rw [seeded_of_le hn (by omega), List.getElem?_append_right (by simpa using hi),
    List.length_replicate] at hv
  rcases hj : i - (n - 1) with _ | j
  · rw [hj, List.getElem?_cons_zero, Option.some.injEq] at hv
    rw [← hv]
    rfl
  · rw [hj, List.getElem?_cons_succ] at hv
    exact hrun _ _ j v hv

variable [Scalar α]

/-! ## Averages of the last numbers -/

theorem length_rollingFrom (n : Nat) (xs : List α) :
    ∀ seen sum leaving, (rollingFrom n seen sum leaving xs).length = xs.length := by
  induction xs with
  | nil => intros; rfl
  | cons x xs ih => intro seen sum leaving; simp [rollingFrom, ih]

/-- The number that leaves the sum stands in the list already, so what follows does not change it. -/
theorem rollingFrom_isPrefix (n : Nat) (xs ys : List α) :
    ∀ seen sum leaving, xs <:+ leaving →
      rollingFrom n seen sum leaving xs <+: rollingFrom n seen sum (leaving ++ ys) (xs ++ ys) := by
  induction xs with
  | nil => intros; exact List.nil_prefix
  | cons x xs ih =>
    intro seen sum leaving hsuf
    obtain ⟨l, ls, rfl⟩ : ∃ l ls, leaving = l :: ls := by
      cases leaving with
      | nil => simp at hsuf
      | cons l ls => exact ⟨l, ls, rfl⟩
    have hxs : xs <:+ ls := by
      rcases List.suffix_cons_iff.mp hsuf with heq | hls
      · rw [(List.cons.inj heq).2]
      · exact (List.suffix_cons x xs).trans hls
    rw [List.cons_append, List.cons_append, rollingFrom, rollingFrom]
    by_cases hn : n ≤ seen
    · simp only [hn, if_true, List.headD_cons, List.tail_cons, List.prefix_cons_inj]
      exact ih _ _ _ hxs
    · simp only [hn, if_false, List.prefix_cons_inj]
      exact ih _ _ (l :: ls) (hxs.trans (List.suffix_cons l ls))

theorem le_of_rollingFrom_eq_some {n : Nat} {xs : List α} {m : α} :
    ∀ {seen sum leaving i}, (rollingFrom n seen sum leaving xs)[i]? = some (some m) →
      n ≤ seen + i + 1 := by
  induction xs with
  | nil => intro seen sum leaving i h; simp [rollingFrom] at h
  | cons x xs ih =>
    intro seen sum leaving i h
    rw [rollingFrom] at h
    cases i with
    | zero =>
      by_contra hlt
      rw [List.getElem?_cons_zero, if_neg (by omega)] at h
      cases h
    | succ i =>
      rw [List.getElem?_cons_succ] at h
      have := ih h
      omega

/-- There is no mean before `n` numbers are seen. -/
theorem le_of_rollingMean_eq_some {n i : Nat} {xs : List α} {m : α}
    (h : (rollingMean n xs)[i]? = some (some m)) : n ≤ i + 1 := by
  by_cases hn : n = 0
  · omega
  · rw [rollingMean, if_neg hn] at h
    have := le_of_rollingFrom_eq_some h
    omega

theorem causal_rollingMean (n : Nat) : Causal (rollingMean (α := α) n) := by
  by_cases hn : n = 0
  · have hnone : rollingMean (α := α) n = List.map fun _ => none := funext fun _ => if_pos hn
    rw [hnone]
    exact causal_map _
  · constructor
    · intro xs
      rw [rollingMean, if_neg hn, length_rollingFrom]
    · intro xs ys
      rw [rollingMean, rollingMean, if_neg hn, if_neg hn]
      exact rollingFrom_isPrefix n xs ys _ _ _ (List.suffix_refl xs)

theorem causal_exponentialMean (n : Nat) : Causal (exponentialMean (α := α) n) := by
  unfold exponentialMean
  exact causal_seeded _ _ _

theorem causal_wilderMean (n : Nat) : Causal (wilderMean (α := α) n) := by
  unfold wilderMean
  exact causal_seeded _ _ _

/-! ## Ranges and strength -/

theorem causal_trueRanges : Causal (trueRanges (α := α)) := by
  constructor
  · intro bars
    cases bars with
    | nil => rfl
    | cons b rest => simp [trueRanges]
  · intro bars more
    cases bars with
    | nil => exact List.nil_prefix
    | cons b rest =>
      rw [List.cons_append, trueRanges, trueRanges, List.prefix_cons_inj]
      exact zipWith_isPrefix _ (List.prefix_append _ _) (List.prefix_append _ _)

theorem changes_isPrefix (c : α) (rest more : List α) :
    changes (c :: rest) <+: changes (c :: rest ++ more) :=
  zipWith_isPrefix _ (List.prefix_append _ _) (List.prefix_append _ _)

theorem causal_relativeStrength (n : Nat) : Causal (relativeStrength (α := α) n) := by
  have hmean : ∀ (g : α → α) {as as' : List α}, as <+: as' →
      wilderMean n (as.map g) <+: wilderMean n (as'.map g) := by
    rintro g as _ ⟨t, rfl⟩
    exact ((causal_wilderMean n).comp (causal_map g)).stable as t
  constructor
  · intro closes
    cases closes with
    | nil => rfl
    | cons c rest => simp [relativeStrength, (causal_wilderMean n).length_eq, changes]
  · intro closes more
    cases closes with
    | nil => exact List.nil_prefix
    | cons c rest =>
      have h := changes_isPrefix c rest more
      rw [List.cons_append] at h ⊢
      rw [relativeStrength, relativeStrength, List.prefix_cons_inj]
      exact zipWith_isPrefix _ (hmean gain h) (hmean loss h)

theorem causal_averageTrueRange (n : Nat) : Causal (averageTrueRange (α := α) n) :=
  (causal_wilderMean n).comp causal_trueRanges

/-! ## Divergence -/

/-- From its start on both means have a value at each close, so no entry of the line is missing. -/
theorem length_divergenceLine {fast slow : Nat} (hf : fast ≠ 0) (hs : slow ≠ 0) (closes : List α) :
    (divergenceLine fast slow closes).length = closes.length - (max slow fast - 1) := by
  have hall : ∀ p ∈ ((exponentialMean fast closes).zip (exponentialMean slow closes)).drop
      (max slow fast - 1), p.1.isSome ∧ p.2.isSome := by
    rintro ⟨f, s⟩ hp
    obtain ⟨i, hi⟩ := List.mem_iff_getElem?.mp hp
    rw [List.getElem?_drop] at hi
    obtain ⟨hfi, hsi⟩ := List.getElem?_zip_eq_some.mp hi
    rw [exponentialMean] at hfi hsi
    exact ⟨seeded_isSome hf (by omega) hfi, seeded_isSome hs (by omega) hsi⟩
  rw [divergenceLine, List.filterMap_length_eq_length.mpr, List.length_drop, List.length_zip,
    (causal_exponentialMean fast).length_eq, (causal_exponentialMean slow).length_eq, Nat.min_self]
  rintro ⟨f, s⟩ hp
  obtain ⟨hfs, hss⟩ := hall _ hp
  obtain ⟨x, rfl⟩ := Option.isSome_iff_exists.mp hfs
  obtain ⟨y, rfl⟩ := Option.isSome_iff_exists.mp hss
  rfl

theorem divergenceLine_isPrefix (fast slow : Nat) (closes more : List α) :
    divergenceLine fast slow closes <+: divergenceLine fast slow (closes ++ more) := by
  have hzip : (exponentialMean fast closes).zip (exponentialMean slow closes) <+:
      (exponentialMean fast (closes ++ more)).zip (exponentialMean slow (closes ++ more)) :=
    zipWith_isPrefix _ ((causal_exponentialMean fast).stable _ _)
      ((causal_exponentialMean slow).stable _ _)
  exact (hzip.drop _).filterMap _

theorem causal_divergence (fast slow signal : Nat) :
    Causal (divergence (α := α) fast slow signal) := by
  by_cases hzero : fast = 0 ∨ slow = 0 ∨ signal = 0
  · have hnone : divergence (α := α) fast slow signal = List.map fun _ => none :=
      funext fun closes => if_pos (by omega)
    rw [hnone]
    exact causal_map _
  obtain ⟨hf, hs, hg⟩ : fast ≠ 0 ∧ slow ≠ 0 ∧ signal ≠ 0 := by omega
  constructor
  · intro closes
    rw [divergence]
    split_ifs with hshort
    · exact List.length_map _
    · simp only [List.length_append, List.length_replicate, List.length_zipWith,
        (causal_exponentialMean signal).length_eq, length_divergenceLine hf hs]
      omega
  · intro closes more
    rw [divergence, divergence]
    split_ifs with hshort hlong hlong
    · rw [List.map_append]
      exact List.prefix_append _ _
    · -- the shorter list has no slow mean, and the longer one begins with as many missing entries
      rw [List.map_const', List.length_append]
      exact replicate_isPrefix (by omega) none _
    · rw [List.length_append] at hlong
      omega
    · have hline := divergenceLine_isPrefix fast slow closes more
      have hlength := length_divergenceLine hf hs closes
      simp only [List.length_append]
      by_cases hstart : closes.length ≤ max slow fast - 1
      · have hnil : divergenceLine fast slow closes = [] := List.eq_nil_of_length_eq_zero (by omega)
        rw [hnil, List.zipWith_nil_left, List.append_nil]
        exact replicate_isPrefix (by omega) none _
      · rw [show min (max slow fast - 1) (closes.length + more.length) =
          min (max slow fast - 1) closes.length by omega, List.prefix_append_right_inj]
        refine zipWith_isPrefix _ hline ?_
        obtain ⟨rest, hrest⟩ := hline
        rw [← hrest]
        exact (causal_exponentialMean signal).stable _ _

/-! ## Bands -/

omit [Scalar α] in
theorem windowAt_append {n i : Nat} {xs : List α} (ys : List α) (hi : i < xs.length) (hn : n ≤ i + 1) :
    windowAt n i (xs ++ ys) = windowAt n i xs := by
  rw [windowAt, windowAt, List.drop_append_of_le_length (by omega),
    List.take_append_of_le_length (by rw [List.length_drop]; omega)]

theorem causal_bands (n hundredths : Nat) : Causal (bands (α := α) n hundredths) := by
  constructor
  · intro closes
    simp only [bands, List.length_map, List.length_zipIdx, (causal_rollingMean n).length_eq]
  · intro closes more
    have hlength := (causal_rollingMean (α := α) n).length_eq closes
    rw [List.prefix_iff_getElem?]
    intro i hi
    have hin : i < closes.length := by
      simpa only [bands, List.length_map, List.length_zipIdx, hlength] using hi
    rw [← List.getElem?_eq_getElem hi]
    simp only [bands, List.getElem?_map, List.getElem?_zipIdx,
      (causal_rollingMean n).getElem?_append hin]
    rw [List.getElem?_eq_getElem (by omega)]
    rcases hmean : (rollingMean n closes)[i] with _ | mean
    · rfl
    · -- a mean is there, so the window up to the index is complete in the shorter list
      have hfull : n ≤ i + 1 := le_of_rollingMean_eq_some (List.getElem?_eq_some_iff.mpr ⟨_, hmean⟩)
      simp only [Option.map_some, Nat.zero_add, windowAt_append more hin hfull]

/-! ## Readings -/

/-- **No indicator looks ahead.** What an indicator says at a bar is the same in every longer history. -/
theorem causal_readings (i : Indicator) : Causal (i.readings (α := α)) := by
  have hcloses : Causal (List.map (Bar.close (α := α))) := causal_map _
  have hsingle : Causal (List.map (Option.map (Reading.single (α := α)))) := causal_map _
  cases i with
  | sma n => exact hsingle.comp ((causal_rollingMean n).comp hcloses)
  | ema n => exact hsingle.comp ((causal_exponentialMean n).comp hcloses)
  | rsi n => exact hsingle.comp ((causal_relativeStrength n).comp hcloses)
  | atr n => exact hsingle.comp (causal_averageTrueRange n)
  | macd fast slow signal => exact (causal_divergence fast slow signal).comp hcloses
  | bollinger n hundredths => exact (causal_bands n hundredths).comp hcloses

/-- The points of a series are those of every longer history. -/
theorem causal_points (i : Indicator) : Causal fun bars : List (Bar α) => (i.series bars).points :=
  Causal.zipWith _ causal_id (causal_readings i)

/-- **The beginning of a series.** Whatever the periods are, the series along the first `k` bars are the first `k`
points of the series along all bars. -/
theorem series_take (i : Indicator) (bars : List (Bar α)) (k : Nat) :
    i.series (bars.take k) = ⟨i, (i.series bars).points.take k⟩ := by
  have hpoints : (i.series (bars.take k)).points = (i.series bars).points.take k := (causal_points i).take bars k
  rw [← hpoints]
  rfl

end Indicator

end Backtest
