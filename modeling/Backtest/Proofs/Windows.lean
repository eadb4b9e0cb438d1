import Mathlib
import Backtest.Proofs.PriceUnit
import Backtest.Proofs.Warmup

/-!
# The mean of a window

The rolling mean never adds up a window. It keeps a sum, to which each number is added and from which the number `n`
places before it is subtracted. With exact arithmetic that is the sum of the last `n` numbers, which are a difference of
two beginnings of the list (`windowSum_succ`); so the walk along the list says at each place what adding up the window
there would say (`rollingMean_eq_means`).

The bands cut their window out of the closes a second time, for the distances from the mean. That it is the window of
the mean is part of `window_readings`: at each bar with a full window, the mean, the middle of the bands and their
deviation are those of one list of `n` closes, the ones up to this bar.
-/

namespace Backtest.Indicator

variable {K : Type} [OrderedField K]

/-! ## Windows as they are meant -/

/-- The `n` entries of a list up to an index. -/
structure IsWindow (n index : ℕ) (xs window : List K) : Prop where
  length : window.length = n
  entries : ∀ k < n, window[k]? = xs[index + 1 - n + k]?

def average (window : List K) : K := window.sum / window.length

/-- The root of the mean square of the distances from the average. -/
noncomputable def deviation (window : List K) : K :=
  Exact.root (average (window.map fun x => (x - average window) ^ 2))

/-- What bands around the average of a window say, at a multiple in hundredths of the deviation. -/
noncomputable def bandsOf (hundredths : ℕ) (window : List K) : Reading K :=
  let width := (hundredths : K) / (100 : ℕ) * deviation window
  .bands (average window + width) (average window) (average window - width)

/-- The sum of the last `n` of the first `i` numbers, of all of them if they are fewer. -/
def windowSum (n : ℕ) (xs : List K) (i : ℕ) : K := ((xs.take i).drop (i - n)).sum

open Exact

/-! ## The running sum -/

theorem sum_drop_take (xs : List K) {k i : ℕ} (h : k ≤ i) :
    ((xs.take i).drop k).sum = (xs.take i).sum - (xs.take k).sum := by
  have hsplit := List.sum_take_add_sum_drop (xs.take i) k
  rw [List.take_take, min_eq_left h] at hsplit
  exact eq_sub_of_add_eq' hsplit

theorem windowSum_zero (n : ℕ) (xs : List K) : windowSum n xs 0 = 0 := by
  rw [windowSum, List.take_zero, List.drop_nil, List.sum_nil]

/-- One number enters the window, and one leaves it as soon as it was full. -/
theorem windowSum_succ {n i : ℕ} {xs : List K} (hi : i < xs.length) :
    windowSum n xs (i + 1) = if hn : n ≤ i then windowSum n xs i + xs[i] - xs[i - n] else windowSum n xs i + xs[i] := by
  have hadd := List.sum_take_succ xs i hi
  split_ifs with hn
  · have hleave := List.sum_take_succ xs (i - n) (by omega)
    rw [windowSum, windowSum, sum_drop_take xs (Nat.sub_le _ n), sum_drop_take xs (Nat.sub_le _ n), hadd,
      Nat.sub_add_comm hn, hleave]
    ring
  · rw [windowSum, windowSum, show i + 1 - n = 0 by omega, show i - n = 0 by omega, List.drop_zero,
      List.drop_zero, hadd]

/-- The walk from a place on, with the window there summed up and the list from its oldest number on at hand. -/
theorem rollingFrom_eq_means {n : ℕ} (xs rest : List K) : ∀ i, xs.drop i = rest →
    rollingFrom n i (windowSum n xs i) (xs.drop (i - n)) rest =
      (List.range' i rest.length).map fun j => if n ≤ j + 1 then some (windowSum n xs (j + 1) / n) else none := by
  induction rest with
  | nil => exact fun _ _ => rfl
  | cons x rest ih =>
    intro i hdrop
    have hi : i < xs.length := by
      by_contra hout
      rw [List.drop_of_length_le (not_lt.mp hout)] at hdrop
      cases hdrop
    obtain ⟨rfl, hrest⟩ : xs[i] = x ∧ xs.drop (i + 1) = rest := by
      rw [List.drop_eq_getElem_cons hi] at hdrop
      exact List.cons.inj hdrop
    have hsum := windowSum_succ (n := n) hi
    rw [rollingFrom, List.length_cons, List.range'_succ, List.map_cons]
    by_cases hn : n ≤ i
    · -- the number that leaves is the head of the list from the oldest number on
      have hleaving : xs.drop (i - n) = xs[i - n] :: xs.drop (i + 1 - n) := by
        rw [List.drop_eq_getElem_cons (by omega), Nat.sub_add_comm hn]
      rw [dif_pos hn] at hsum
      simp only [if_pos hn, hleaving, List.headD_cons, List.tail_cons, ← hsum, ih (i + 1) hrest]
    · rw [dif_neg hn] at hsum
      simp only [if_neg hn, ← hsum, show i - n = i + 1 - n by omega, ih (i + 1) hrest]

/-- A running sum, divided, is the mean of the window at each place. -/
theorem rollingMean_eq_means {n : ℕ} (hn : n ≠ 0) (xs : List K) :
    rollingMean n xs =
      (List.range xs.length).map fun j => if n ≤ j + 1 then some (windowSum n xs (j + 1) / n) else none := by
  have hwalk := rollingFrom_eq_means (n := n) xs xs 0 rfl
  rw [windowSum_zero, Nat.zero_sub, List.drop_zero, ← List.range_eq_range'] at hwalk
  rw [rollingMean, if_neg hn, Nat.cast_zero, hwalk]

/-! ## Windows of closes -/

section

variable {n index : ℕ} {xs window : List K}

theorem rollingMean_of_early (hn : n ≠ 0) (hindex : index < xs.length) (hearly : index + 1 < n) :
    (rollingMean n xs)[index]? = some none := by
  rw [rollingMean_eq_means hn, List.getElem?_map, List.getElem?_range hindex, Option.map_some,
    if_neg (not_le.mpr hearly)]

omit [OrderedField K] in
/-- The piece of a list that a window is cut out by. -/
theorem isWindow_slice (hfull : n ≤ index + 1) (hindex : index < xs.length) :
    IsWindow n index xs ((xs.take (index + 1)).drop (index + 1 - n)) := by
  refine ⟨?_, fun k hk => ?_⟩
  · rw [List.length_drop, List.length_take]
    omega
  · rw [List.getElem?_drop, List.getElem?_take_of_lt (by omega)]

theorem rollingMean_of_full (hn : n ≠ 0) (hindex : index < xs.length) (hfull : n ≤ index + 1) :
    (rollingMean n xs)[index]? = some (some (average ((xs.take (index + 1)).drop (index + 1 - n)))) := by
  rw [rollingMean_eq_means hn, List.getElem?_map, List.getElem?_range hindex, Option.map_some, if_pos hfull, average,
    (isWindow_slice hfull hindex).length, windowSum]

/-- The mean square that the program computes of a window. -/
theorem variance_eq (hwindow : window.length = n) :
    variance n (average window) window = average (window.map fun x => (x - average window) ^ 2) := by
  simp only [variance, total_eq, average, List.length_map, hwindow, sq]

theorem bandsAround_eq (hundredths : ℕ) (hwindow : window.length = n) :
    Checked.bandsAround n hundredths (average window) window = bandsOf hundredths window := by
  rw [Checked.bandsAround, variance_eq hwindow]
  rfl

theorem bands_of_full (hn : n ≠ 0) (hundredths : ℕ) (hindex : index < xs.length) (hfull : n ≤ index + 1) :
    (bands n hundredths xs)[index]? =
      some (some (bandsOf hundredths ((xs.take (index + 1)).drop (index + 1 - n)))) := by
  have hcut : windowAt n index xs = (xs.take (index + 1)).drop (index + 1 - n) := by
    rw [windowAt, List.drop_take, Nat.sub_sub_self hfull]
  rw [Checked.bands_getElem?, rollingMean_of_full hn hindex hfull, hcut, Option.map_some, Option.map_some,
    bandsAround_eq hundredths (isWindow_slice hfull hindex).length]

theorem sma_of_rollingMean {bars : List (Bar K)} {b : Bar K} {mean : Option K} (hb : bars[index]? = some b)
    (hmean : (rollingMean n (bars.map (·.close)))[index]? = some mean) :
    ((sma n).series bars).points[index]? = some ⟨b.date, mean.map .single⟩ :=
  getElem?_points_of_readings hb (by rw [readings, List.getElem?_map, hmean, Option.map_some])

end

/-- **One window.** Let the arithmetic be exact. Before the first full window there is no mean and there are no bands.
At each later bar they are the average and the bands of one list, the `n` closes up to this bar, which is also the
piece that is cut out of the closes for the deviation. So the mean of one close is the close. -/
theorem window_readings {n : ℕ} (hn : n ≠ 0) (hundredths : ℕ) (bars : List (Bar K)) :
    (∀ (index : ℕ) (b : Bar K), bars[index]? = some b → index + 1 < n →
      (rollingMean n (bars.map (·.close)))[index]? = some none ∧
      ((sma n).series bars).points[index]? = some ⟨b.date, none⟩ ∧
      ((bollinger n hundredths).series bars).points[index]? = some ⟨b.date, none⟩) ∧
    (∀ (index : ℕ) (b : Bar K), bars[index]? = some b → n ≤ index + 1 → ∃ window,
      IsWindow n index (bars.map (·.close)) window ∧
      Checked.slice (bars.map (·.close)) (index + 1 - n) (index + 1) = .ok window ∧
      (rollingMean n (bars.map (·.close)))[index]? = some (some (average window)) ∧
      ((sma n).series bars).points[index]? = some ⟨b.date, some (.single (average window))⟩ ∧
      ((bollinger n hundredths).series bars).points[index]? = some ⟨b.date, some (bandsOf hundredths window)⟩) ∧
    ∀ (index : ℕ) (b : Bar K), bars[index]? = some b →
      ((sma 1).series bars).points[index]? = some ⟨b.date, some (.single b.close)⟩ := by
  have hlt : ∀ (index : ℕ) (b : Bar K), bars[index]? = some b → index < (bars.map (·.close)).length := by
    intro index b hb
    rw [List.length_map]
    exact (List.getElem?_eq_some_iff.mp hb).1
  refine ⟨fun index b hb hearly => ?_, fun index b hb hfull => ?_, fun index b hb => ?_⟩
  · have hmean := rollingMean_of_early hn (hlt index b hb) hearly
    have hbands : (bands n hundredths (bars.map (·.close)))[index]? = some none := by
      rw [Checked.bands_getElem?, hmean]
      rfl
    exact ⟨hmean, sma_of_rollingMean hb hmean, getElem?_points_of_readings hb hbands⟩
  · have hi := hlt index b hb
    have hmean := rollingMean_of_full hn hi hfull
    exact ⟨_, isWindow_slice hfull hi, Checked.slice_eq (Nat.sub_le _ n) hi, hmean, sma_of_rollingMean hb hmean,
      getElem?_points_of_readings hb (bands_of_full hn hundredths hi hfull)⟩
  · have hi := hlt index b hb
    have hone : ((bars.map (·.close)).take (index + 1)).drop (index + 1 - 1) = [b.close] := by
      rw [Nat.add_sub_cancel, List.take_add_one, List.getElem?_map, hb, Option.map_some, Option.toList_some,
        List.drop_left' (by rw [List.length_take, min_eq_left hi.le])]
    have hmean := rollingMean_of_full Nat.one_ne_zero hi (Nat.le_add_left 1 index)
    rw [hone, average, List.sum_singleton, List.length_singleton, Nat.cast_one, div_one] at hmean
    exact sma_of_rollingMean hb hmean

/-- The closes 4 and 5 have the average 9/2 and the deviation 1/2, so two deviations are 1. -/
theorem window_readings_aroundCloses :
    (2 : ℕ) ≠ 0 ∧
      ((sma 2).series (Bar.aroundCloses [6, 4, 5, 6])).points[2]? = some ⟨⟨2⟩, some (.single (9 / 2))⟩ ∧
      ((bollinger 2 200).series (Bar.aroundCloses [6, 4, 5, 6])).points[2]? =
        some ⟨⟨2⟩, some (.bands (11 / 2) (9 / 2) (7 / 2))⟩ := by
  have hn : (2 : ℕ) ≠ 0 := by decide
  obtain ⟨-, hfull, -⟩ := window_readings hn 200 (Bar.aroundCloses [6, 4, 5, 6])
  obtain ⟨window, -, hslice, -, hsma, hbands⟩ := hfull 2 _ rfl (by decide)
  obtain rfl : [4, 5] = window := Except.ok.inj hslice
  have haverage : average [4, 5] = (9 / 2 : ℚ) := by norm_num [average]
  have hdeviation : deviation [4, 5] = (1 / 2 : ℚ) := by
    refine root_eq (by norm_num) ?_
    norm_num [average]
  have hreading : bandsOf 200 [4, 5] = (.bands (11 / 2) (9 / 2) (7 / 2) : Reading ℚ) := by
    rw [bandsOf, haverage, hdeviation]
    norm_num
  rw [haverage] at hsma
  rw [hreading] at hbands
  exact ⟨hn, hsma, hbands⟩

end Backtest.Indicator
