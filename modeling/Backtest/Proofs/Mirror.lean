import Mathlib
import Backtest.Proofs.PriceUnit
import Backtest.Proofs.Warmup

/-!
# Strength in a mirror

Let every close be reflected at a constant. Then each gain becomes a loss of the same size and each loss a gain, so the
two averages of the relative strength index change places, seeds and all (`changes_mirrored`, `gain_neg`, `loss_neg`).
The formula does not treat them alike: it divides by the average loss, and says 100 or 50 where there is none. With
exact arithmetic it is symmetric all the same, since the averages are never negative (`wilderAt_nonneg`): whatever it
says, it says the complement to 100 with the averages exchanged (`plainStrength_swap`).

For the same reason the formula stays between 0 and 100 on its own, and the clamp behind it (`strength_eq_clamp`) never
changes it (`strength_eq_plain`).
`strength_mirrored` puts this together for the series along the bars.
-/

namespace Backtest

variable {K : Type} [OrderedField K]

/-! ## Reflections -/

def Bar.mirrored (k : K) (b : Bar K) : Bar K := { b with close := k - b.close }

def Indicator.Reading.mirrored (k : K) : Reading K → Reading K
  | .single v => .single (k - v)
  | r => r

def Indicator.Point.mirrored (k : K) (p : Point K) : Point K := ⟨p.date, p.reading.map (Reading.mirrored k)⟩

namespace Indicator

/-- The strength of an average gain against an average loss, not clamped. -/
def plainStrength (averageGain averageLoss : K) : K :=
  if averageLoss = 0 then
    if averageGain = 0 then (50 : ℕ) else (100 : ℕ)
  else
    (100 : ℕ) - (100 : ℕ) / (1 + averageGain / averageLoss)

open Exact

/-! ## Gains and losses -/

theorem changes_mirrored (k : K) (closes : List K) :
    changes (closes.map (k - ·)) = (changes closes).map (-·) := by
  simp [changes, ← List.map_tail, List.zipWith_map, List.map_zipWith]

theorem gain_neg (x : K) : gain (-x) = loss x := rfl

theorem loss_neg (x : K) : loss (-x) = gain x := by rw [loss, neg_neg, gain]

theorem gain_nonneg (x : K) : 0 ≤ gain x := by
  rw [gain, larger_eq, Nat.cast_zero]
  exact le_max_right x 0

theorem loss_nonneg (x : K) : 0 ≤ loss x := gain_neg x ▸ gain_nonneg (-x)

/-- A smoothed average of numbers that are not negative. -/
theorem wilderAt_nonneg {n i : ℕ} {xs : List K} (hn : n ≠ 0) (hxs : ∀ x ∈ xs, 0 ≤ x) (hle : n ≤ i)
    (hi : i ≤ xs.length) : 0 ≤ wilderAt n xs i := by
  have hone : (0 : K) ≤ (n : K) - 1 := sub_nonneg.mpr (by exact_mod_cast Nat.pos_of_ne_zero hn)
  refine wilderAt_keeps (fun average k x _ hx haverage => ?_) le_rfl hle hi ?_
  · rw [wilderStep, Nat.cast_one]
    exact div_nonneg (add_nonneg (mul_nonneg haverage hone) (hxs x (List.mem_of_getElem? hx))) n.cast_nonneg
  · rw [wilderAt_self, wilderSeed, total_eq]
    exact div_nonneg (List.sum_nonneg fun x hx => hxs x (List.mem_of_mem_take hx)) n.cast_nonneg

/-! ## The formula -/

theorem strength_eq_clamp (g l : K) : strength g l = Scalar.clamp 0 100 (plainStrength g l) := by
  have hzero : ∀ x : K, (decide (x ≤ ((0 : ℕ) : K)) && decide (((0 : ℕ) : K) ≤ x)) = true ↔ x = 0 := by
    intro x
    rw [Nat.cast_zero, Bool.and_eq_true, decide_eq_true_iff, decide_eq_true_iff, ← le_antisymm_iff]
  simp only [strength, hzero, plainStrength]
  simp only [Nat.cast_ofNat, Nat.cast_zero, Nat.cast_one]
  split_ifs
  · exact (clamp_eq (by norm_num) (by norm_num)).symm
  · exact (clamp_eq (by norm_num) le_rfl).symm
  · rfl

theorem plainStrength_zero (g : K) : plainStrength g 0 = if g = 0 then 50 else 100 := by
  rw [plainStrength, if_pos rfl, Nat.cast_ofNat, Nat.cast_ofNat]

section

variable {g l : K} (hg : 0 ≤ g) (hl : 0 ≤ l)

include hg hl

theorem plainStrength_of_loss (hne : l ≠ 0) : plainStrength g l = 100 * (g / (g + l)) := by
  have hpos : 0 < l := lt_of_le_of_ne hl (Ne.symm hne)
  rw [plainStrength, if_neg hne, Nat.cast_ofNat]
  field_simp
  ring

/-- Gains and losses change places. -/
theorem plainStrength_swap : plainStrength l g = 100 - plainStrength g l := by
  by_cases hl0 : l = 0
  · by_cases hg0 : g = 0
    · rw [hl0, hg0, plainStrength_zero, if_pos rfl]
      norm_num
    · rw [plainStrength_of_loss hl hg hg0, hl0, plainStrength_zero, if_neg hg0, zero_add, zero_div, mul_zero, sub_self]
  · have hsum : g + l ≠ 0 := (add_pos_of_nonneg_of_pos hg (lt_of_le_of_ne hl (Ne.symm hl0))).ne'
    rw [plainStrength_of_loss hg hl hl0]
    by_cases hg0 : g = 0
    · rw [hg0, plainStrength_zero, if_neg hl0, zero_div, mul_zero, sub_zero]
    · rw [plainStrength_of_loss hl hg hg0]
      field_simp
      ring

theorem plainStrength_between : 0 ≤ plainStrength g l ∧ plainStrength g l ≤ 100 := by
  by_cases hl0 : l = 0
  · rw [hl0, plainStrength_zero]
    split_ifs
    · norm_num
    · norm_num
  · have hshare : g / (g + l) ≤ 1 := div_le_one_of_le₀ (le_add_of_nonneg_right hl) (add_nonneg hg hl)
    rw [plainStrength_of_loss hg hl hl0]
    exact ⟨by positivity, by linarith⟩

/-- The formula needs no clamp. -/
theorem strength_eq_plain : strength g l = plainStrength g l := by
  obtain ⟨hlow, hhigh⟩ := plainStrength_between hg hl
  rw [strength_eq_clamp, clamp_eq hlow hhigh]

end

/-! ## The index -/

section

variable {n index : ℕ} {closes : List K}

/-- The averages of gains and of losses at a place. -/
theorem averages_nonneg (hn : n ≠ 0) (hle : n ≤ index) (hi : index < closes.length) :
    0 ≤ wilderAt n ((changes closes).map gain) index ∧ 0 ≤ wilderAt n ((changes closes).map loss) index := by
  have hmoves (f : K → K) : index ≤ ((changes closes).map f).length := by
    rw [List.length_map, Checked.length_changes]
    omega
  exact ⟨wilderAt_nonneg hn (List.forall_mem_map.mpr fun x _ => gain_nonneg x) hle (hmoves gain),
    wilderAt_nonneg hn (List.forall_mem_map.mpr fun x _ => loss_nonneg x) hle (hmoves loss)⟩

theorem averages_mirrored (k : K) (closes : List K) :
    (changes (closes.map (k - ·))).map gain = (changes closes).map loss ∧
      (changes (closes.map (k - ·))).map loss = (changes closes).map gain := by
  rw [changes_mirrored, List.map_map, List.map_map]
  exact ⟨List.map_congr_left fun x _ => gain_neg x, List.map_congr_left fun x _ => loss_neg x⟩

end

theorem relativeStrength_mirrored (n : ℕ) (k : K) (closes : List K) :
    relativeStrength n (closes.map (k - ·)) = (relativeStrength n closes).map (Option.map (100 - ·)) := by
  by_cases hshort : n = 0 ∨ closes.length ≤ n
  · rw [Checked.relativeStrength_of_short (by rwa [List.length_map]), Checked.relativeStrength_of_short hshort,
      List.length_map, List.map_replicate, Option.map_none]
  · obtain ⟨hn, hlong⟩ := not_or.mp hshort
    obtain ⟨hgains, hlosses⟩ := averages_mirrored k closes
    apply List.ext_getElem?
    intro index
    rcases Nat.lt_or_ge index closes.length with hi | hi
    · rw [Checked.relativeStrength_getElem? hn (by rw [List.length_map]; omega) (by rwa [List.length_map]), hgains,
        hlosses, List.getElem?_map, Checked.relativeStrength_getElem? hn (not_le.mp hlong) hi]
      split_ifs with hearly
      · rfl
      · obtain ⟨hg, hl⟩ := averages_nonneg hn (not_lt.mp hearly) hi
        rw [strength_eq_plain hl hg, strength_eq_plain hg hl, plainStrength_swap hg hl]
        rfl
    · rw [List.getElem?_eq_none, List.getElem?_eq_none]
      · rwa [List.length_map, (causal_relativeStrength n).length_eq]
      · rwa [(causal_relativeStrength n).length_eq, List.length_map]

/-- A value of the index is the plain strength of the two averages. -/
theorem exists_averages {n index : ℕ} {closes : List K} {v : K}
    (hv : (relativeStrength n closes)[index]? = some (some v)) :
    ∃ g l, (wilderMean n ((changes closes).map gain))[index - 1]? = some (some g) ∧
      (wilderMean n ((changes closes).map loss))[index - 1]? = some (some l) ∧ v = plainStrength g l ∧
      0 ≤ v ∧ v ≤ 100 := by
  by_cases hshort : n = 0 ∨ closes.length ≤ n
  · rw [Checked.relativeStrength_of_short hshort] at hv
    cases List.eq_of_mem_replicate (List.mem_of_getElem? hv)
  · obtain ⟨hn, hlong⟩ := not_or.mp hshort
    have hi : index < closes.length := by
      have hlt := (List.getElem?_eq_some_iff.mp hv).1
      rwa [(causal_relativeStrength n).length_eq] at hlt
    rw [Checked.relativeStrength_getElem? hn (not_le.mp hlong) hi] at hv
    split_ifs at hv with hearly
    · cases hv
    · have hmean (f : K → K) : (wilderMean n ((changes closes).map f))[index - 1]? =
          some (some (wilderAt n ((changes closes).map f) index)) := by
        have hmoves : ((changes closes).map f).length = closes.length - 1 := by
          rw [List.length_map, Checked.length_changes]
        rw [wilderMean_getElem? hn (by omega) (by omega), if_neg (by omega), Nat.sub_add_cancel (by omega)]
      obtain ⟨hg, hl⟩ := averages_nonneg hn (not_lt.mp hearly) hi
      rw [strength_eq_plain hg hl] at hv
      cases hv
      exact ⟨_, _, hmean gain, hmean loss, rfl, plainStrength_between hg hl⟩

/-- **Strength in a mirror.** Let the arithmetic be exact, and let each close be replaced by its distance to a constant.
Then the relative strength index has values at the same bars, and what it says is the complement to 100 of what it said.
Each value is what the formula gives for the two averages before it is clamped, which lies between 0 and 100. -/
theorem strength_mirrored (n : ℕ) (k : K) (bars : List (Bar K)) :
    ((rsi n).series (bars.map (Bar.mirrored k))).points = ((rsi n).series bars).points.map (Point.mirrored 100) ∧
    ∀ (index : ℕ) (p : Point K) (reading : Reading K), ((rsi n).series bars).points[index]? = some p →
      p.reading = some reading → ∃ v g l, reading = .single v ∧ 0 ≤ v ∧ v ≤ 100 ∧
        (wilderMean n ((changes (bars.map (·.close))).map gain))[index - 1]? = some (some g) ∧
        (wilderMean n ((changes (bars.map (·.close))).map loss))[index - 1]? = some (some l) ∧
        v = plainStrength g l := by
  constructor
  · have hcloses : (bars.map (Bar.mirrored k)).map (·.close) = (bars.map (·.close)).map (k - ·) := by
      rw [List.map_map, List.map_map]
      rfl
    have hreadings : (rsi n).readings (bars.map (Bar.mirrored k)) =
        ((rsi n).readings bars).map (Option.map (Reading.mirrored 100)) := by
      rw [readings, readings, hcloses, relativeStrength_mirrored, List.map_map, List.map_map]
      refine List.map_congr_left fun value _ => ?_
      cases value with
      | none => rfl
      | some v => rfl
    rw [series, series, hreadings, List.zipWith_map, List.map_zipWith]
    rfl
  · intro index p reading hp hreading
    obtain ⟨b, _, -, hvalue, rfl⟩ := getElem?_points.mp hp
    dsimp only at hreading
    rw [hreading, readings, List.getElem?_map, Option.map_eq_some_iff] at hvalue
    obtain ⟨_ | v, hv, hsingle⟩ := hvalue
    · cases hsingle
    · obtain ⟨g, l, hg, hl, hvgl, hlow, hhigh⟩ := exists_averages hv
      exact ⟨v, g, l, (Option.some.inj hsingle).symm, hlow, hhigh, hg, hl, hvgl⟩

end Indicator

end Backtest
