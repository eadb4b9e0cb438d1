import Backtest.Proofs.Warmup

/-!
# The divergence of two means

A divergence is put together from three exponential means on lists that begin at different bars. `IsLine` says what its
line is to be: one number for each bar from the one on at which the longer of the two means of the closes begins, the
fast mean there less the slow one. The signal is the exponential mean of that list, and its entries stand as many bars
behind the closes as the line does.

`divergence_means`: the divergence along the bars is that line, its mean and their distance, at the bars at which the
mean has a value and nowhere else, whichever period is the longer one. The walk along the bars that puts a quotient of
zeros where a mean is missing gives the same line, because none is missing.
-/

namespace Backtest.Indicator

variable {α : Type} [Scalar α]

/-- The differences of a fast and a slow mean of the closes, from the bar on at which both are there. -/
structure IsLine (fast slow : Nat) (bars : List (Bar α)) (values : List α) : Prop where
  length : values.length = bars.length - (max fast slow - 1)
  entries : ∀ k, k < values.length → ∃ f s,
    ((ema fast).series bars).reading? (max fast slow - 1 + k) = some (.single f) ∧
    ((ema slow).series bars).reading? (max fast slow - 1 + k) = some (.single s) ∧
    values[k]? = some (f - s)

/-! ## Readings -/

section

variable {bars : List (Bar α)} {index : Nat}

theorem reading?_ema {n : Nat} {m : α} (h : (exponentialMean n (bars.map (·.close)))[index]? = some (some m)) :
    ((ema n).series bars).reading? index = some (.single m) := (reading?_single_iff rfl).mpr ⟨m, rfl, h⟩

theorem reading?_macd {fast slow signal : Nat} {v : Option (Reading α)}
    (h : (divergence fast slow signal (bars.map (·.close)))[index]? = some v) :
    ((macd fast slow signal).series bars).reading? index = v := by
  rw [reading?_series, readings, h, Option.join_some]

/-! ## The line -/

variable {fast slow : Nat} (hf : fast ≠ 0) (hs : slow ≠ 0)

include hf hs

/-- Both means have a value wherever the line has one. -/
theorem isLine_divergenceLine (bars : List (Bar α)) :
    IsLine fast slow bars (divergenceLine fast slow (bars.map (·.close))) := by
  have hlength := length_divergenceLine hf hs (bars.map (·.close))
  refine ⟨by rw [hlength, max_comm, List.length_map], fun k hk => ?_⟩
  have hin : max slow fast - 1 + k < (bars.map (·.close)).length := by omega
  obtain ⟨f, s, hfast, hslow, hline⟩ := Checked.divergenceLine_getElem? hf hs hin
  rw [max_comm] at hfast hslow
  exact ⟨f, s, reading?_ema hfast, reading?_ema hslow, hline⟩

end

/-! ## The divergence -/

theorem long_of_divergence {fast slow signal index : Nat} {closes : List α} {reading : Reading α}
    (h : (divergence fast slow signal closes)[index]? = some (some reading)) :
    ¬ (fast = 0 ∨ slow = 0 ∨ signal = 0 ∨ closes.length < slow) := by
  intro hshort
  rw [divergence, if_pos hshort, List.getElem?_map, Option.map_eq_some_iff] at h
  obtain ⟨_, -, hsilent⟩ := h
  cases hsilent

/-- What a divergence says is made of the line and the mean of the line, entry by entry. -/
theorem reading?_macd_eq_some_iff {fast slow signal : Nat} (hf : fast ≠ 0) (hs : slow ≠ 0) (hg : signal ≠ 0)
    {bars : List (Bar α)} {index : Nat} {reading : Reading α} :
    ((macd fast slow signal).series bars).reading? index = some reading ↔
      ∃ k l g, index = max fast slow - 1 + k ∧ (divergenceLine fast slow (bars.map (·.close)))[k]? = some l ∧
        (exponentialMean signal (divergenceLine fast slow (bars.map (·.close))))[k]? = some (some g) ∧
        reading = .macd l g (l - g) := by
  let values := divergenceLine fast slow (bars.map (·.close))
  have hlength : values.length = (bars.map (·.close)).length - (max slow fast - 1) := length_divergenceLine hf hs _
  have hmeans : (exponentialMean signal values).length = values.length := (causal_exponentialMean signal).length_eq _
  rw [max_comm fast slow]
  constructor
  · intro hreading
    rw [reading?_series, readings, Option.join_eq_some_iff] at hreading
    have hindex : index < (bars.map (·.close)).length := by
      have hlt := (List.getElem?_eq_some_iff.mp hreading).1
      rwa [(causal_divergence fast slow signal).length_eq] at hlt
    have hstart := (beginsAt_divergence hf hs hg _ index _ hreading).mp rfl
    obtain ⟨k, rfl⟩ := Nat.exists_eq_add_of_le ((Nat.le_add_right _ (signal - 1)).trans hstart)
    have hk : k < values.length := by omega
    have hl := List.getElem?_eq_getElem hk
    have hmean := List.getElem?_eq_getElem (hk.trans_eq hmeans.symm)
    rw [Checked.divergence_getElem? (long_of_divergence hreading) hl hmean, Option.some.injEq,
      Option.map_eq_some_iff] at hreading
    obtain ⟨g, hgk, rfl⟩ := hreading
    exact ⟨k, _, g, rfl, hl, hmean.trans (congrArg some hgk), rfl⟩
  · rintro ⟨k, l, g, rfl, hl, hmean, rfl⟩
    have hk : k < values.length := (List.getElem?_eq_some_iff.mp hl).1
    exact reading?_macd (Checked.divergence_getElem? (by omega) hl hmean)

/-- **The divergence of two means.** Let no period be zero. Then both means of the closes have a value at each bar from
the one on at which the longer of them begins, and the line is the fast one there less the slow one; no number has to
stand in for a missing mean on the way. The divergence has a value exactly where the mean of the line has one: the line,
this mean, and the line less this mean. -/
theorem divergence_means {fast slow signal : Nat} (hf : fast ≠ 0) (hs : slow ≠ 0) (hg : signal ≠ 0)
    (bars : List (Bar α)) :
    ∃ values, IsLine fast slow bars values ∧ Checked.divergenceLine fast slow (bars.map (·.close)) = .ok values ∧
      ∀ index reading, ((macd fast slow signal).series bars).reading? index = some reading ↔
        ∃ k f s g, index = max fast slow - 1 + k ∧
          ((ema fast).series bars).reading? index = some (.single f) ∧
          ((ema slow).series bars).reading? index = some (.single s) ∧
          (exponentialMean signal values)[k]? = some (some g) ∧ reading = .macd (f - s) g (f - s - g) := by
  have hline := isLine_divergenceLine hf hs bars
  refine ⟨_, hline, Checked.divergenceLine_eq hf hs _, fun index reading => ?_⟩
  rw [reading?_macd_eq_some_iff hf hs hg]
  constructor
  · rintro ⟨k, l, g, rfl, hl, hmean, rfl⟩
    obtain ⟨f, s, hfast, hslow, hentry⟩ := hline.entries k (List.getElem?_eq_some_iff.mp hl).1
    obtain rfl : l = f - s := Option.some.inj (hl.symm.trans hentry)
    exact ⟨k, f, s, g, rfl, hfast, hslow, hmean, rfl⟩
  · rintro ⟨k, f, s, g, rfl, hfast, hslow, hmean, rfl⟩
    have hk := (List.getElem?_eq_some_iff.mp hmean).1
    rw [(causal_exponentialMean signal).length_eq] at hk
    obtain ⟨f', s', hfast', hslow', hentry⟩ := hline.entries k hk
    cases hfast.symm.trans hfast'
    cases hslow.symm.trans hslow'
    exact ⟨k, f - s, g, rfl, hentry, hmean, rfl⟩

/-- With a fast mean that is the longer one: at the last bar the means are 8 and 9, and the distances so far are
-2, -3 and -1. -/
theorem divergence_means_flatHistory :
    3 ≠ 0 ∧ 1 ≠ 0 ∧ 3 ≠ 0 ∧
      ((macd 3 1 3).series (Bar.flatHistory [2, 4, 6, 10, 9])).reading? 4 = some (.macd (-1) (-2) 1) := by
  have hthree : 3 ≠ 0 := by decide
  have hone : 1 ≠ 0 := by decide
  refine ⟨hthree, hone, hthree, ?_⟩
  obtain ⟨values, -, hwalk, hreading⟩ := divergence_means hthree hone hthree (Bar.flatHistory [2, 4, 6, 10, 9])
  have hvalues : (Checked.divergenceLine 3 1 ((Bar.flatHistory [2, 4, 6, 10, 9]).map (·.close))).toOption =
      some [-2, -3, -1] := by decide +kernel
  obtain rfl : values = [-2, -3, -1] := by
    rw [hwalk] at hvalues
    exact Option.some.inj hvalues
  have hdistance : (8 : Float) - 9 = -1 ∧ (-1 : Float) - -2 = 1 := by decide +kernel
  refine (hreading 4 _).mpr ⟨2, 8, 9, -2, rfl, reading?_ema (by decide +kernel), reading?_ema (by decide +kernel),
    by decide +kernel, ?_⟩
  rw [hdistance.1, hdistance.2]

end Backtest.Indicator
