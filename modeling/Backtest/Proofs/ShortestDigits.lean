import Backtest.Proofs.Nearest

/-!
# The fewest digits stand for their number

`shortest` looks for a decimal in the interval of a double, on one grid after the other. What it finds lies there
(`contains_shortest`): a grid gives no other points (`Interval.contains_of_pointOn`), and the search does not end in
vain, as the last grid is fine enough to have a point between the double and the end of its interval
(`upperGrid_fine`, `Interval.exists_pointOn`).
-/

namespace Backtest.Decimal

/-! ## Points of a grid -/

/-- The factors turn two numbers on different scales into whole numbers, by one positive factor for both. -/
theorem gridFactors_spec (scale k : Int) :
    ∃ c : ℚ, 0 < c ∧ (∀ n : Nat, (n : ℚ) * 2 ^ scale * c = (n * (gridFactors scale k).1 : Nat)) ∧
      ∀ d : Nat, (d : ℚ) * 10 ^ k * c = (d * (gridFactors scale k).2 : Nat) := by
  have hsplit : ∀ (b : ℚ) (e : Int), b ≠ 0 → b ^ e * b ^ (-e).toNat = b ^ e.toNat := by
    intro b e hb
    rw [← zpow_natCast, ← zpow_natCast, ← zpow_add₀ hb]
    congr 1
    omega
  refine ⟨2 ^ (-scale).toNat * 10 ^ (-k).toNat, by positivity, fun n => ?_, fun d => ?_⟩
  · simp only [gridFactors, Nat.pow_eq]
    push_cast
    rw [← hsplit 2 scale two_ne_zero]
    ring
  · simp only [gridFactors, Nat.pow_eq]
    push_cast
    rw [← hsplit 10 k (by norm_num)]
    ring

/-- Whether the point `d` of the grid `10 ^ k` lies in an interval, in whole numbers. -/
def Interval.fits (i : Interval) (k : Int) (d : Nat) : Bool :=
  let (a, b) := gridFactors i.scale k
  if i.closed then i.low * a ≤ d * b && d * b ≤ i.high * a else i.low * a < d * b && d * b < i.high * a

theorem Interval.fits_iff (i : Interval) (k : Int) (d : Nat) : i.fits k d = true ↔ i.Contains (d * 10 ^ k) := by
  obtain ⟨c, hc, hscale, hgrid⟩ := gridFactors_spec i.scale k
  have hle : ∀ p q : ℚ, p ≤ q ↔ p * c ≤ q * c := fun p q => (mul_le_mul_iff_left₀ hc).symm
  have hlt : ∀ p q : ℚ, p < q ↔ p * c < q * c := fun p q => (mul_lt_mul_iff_left₀ hc).symm
  have hiff : i.Contains (d * 10 ^ k) ↔ (i.low : ℚ) * 2 ^ i.scale ≤ d * 10 ^ k ∧
      (d : ℚ) * 10 ^ k ≤ i.high * 2 ^ i.scale ∧ (i.closed = true ∨
        (i.low : ℚ) * 2 ^ i.scale < d * 10 ^ k ∧ (d : ℚ) * 10 ^ k < i.high * 2 ^ i.scale) :=
    ⟨fun h => ⟨h.low, h.high, h.edge⟩, fun h => ⟨h.1, h.2.1, h.2.2⟩⟩
  rw [hiff, hle (i.low * _), hle (d * _), hlt (i.low * _), hlt (d * _), hscale, hscale, hgrid, Nat.cast_le,
    Nat.cast_le, Nat.cast_lt, Nat.cast_lt]
  cases hclosed : i.closed with
  | true => simp [fits, hclosed]
  | false =>
    simp only [fits, hclosed, Bool.false_eq_true, false_or, if_false, Bool.and_eq_true, decide_eq_true_eq]
    exact ⟨fun h => ⟨h.1.le, h.2.le, h⟩, fun h => h.2.2⟩

theorem Tie.nearer_eq (tie : Tie) (below down up : Nat) :
    tie.nearer below down up = below ∨ tie.nearer below down up = below + 1 := by
  unfold nearer
  split_ifs
  · exact .inl rfl
  · exact .inr rfl
  · cases tie with
    | away => exact .inr rfl
    | even => simp only; omega

/-- A grid has a point in the interval if the point below the value or the one above it lies there. -/
theorem Interval.pointOn_spec (tie : Tie) (i : Interval) (k : Int) :
    let below := i.value * (gridFactors i.scale k).1 / (gridFactors i.scale k).2
    (∀ d, i.pointOn tie k = some d → (d = below ∨ d = below + 1) ∧ i.fits k d = true) ∧
      (i.fits k (below + 1) = true → ∃ d, i.pointOn tie k = some d) := by
  intro below
  have heq : i.pointOn tie k =
      if decide (below ≠ 0) && i.fits k below && i.fits k (below + 1) then
        some (tie.nearer below (i.value * (gridFactors i.scale k).1 - below * (gridFactors i.scale k).2)
          ((below + 1) * (gridFactors i.scale k).2 - i.value * (gridFactors i.scale k).1))
      else if decide (below ≠ 0) && i.fits k below then some below
      else if i.fits k (below + 1) then some (below + 1)
      else none := rfl
  rw [heq]
  split_ifs with hboth hbelow habove
  · obtain ⟨hbelow, habove⟩ := (Bool.and_eq_true _ _).mp hboth
    refine ⟨?_, fun _ => ⟨_, rfl⟩⟩
    rintro d ⟨⟩
    rcases tie.nearer_eq below (i.value * (gridFactors i.scale k).1 - below * (gridFactors i.scale k).2)
      ((below + 1) * (gridFactors i.scale k).2 - i.value * (gridFactors i.scale k).1) with hd | hd
    · exact ⟨.inl hd, by rw [hd]; exact ((Bool.and_eq_true _ _).mp hbelow).2⟩
    · exact ⟨.inr hd, by rw [hd]; exact habove⟩
  · refine ⟨?_, fun _ => ⟨_, rfl⟩⟩
    rintro d ⟨⟩
    exact ⟨.inl rfl, ((Bool.and_eq_true _ _).mp hbelow).2⟩
  · refine ⟨?_, fun _ => ⟨_, rfl⟩⟩
    rintro d ⟨⟩
    exact ⟨.inr rfl, habove⟩
  · exact ⟨nofun, fun h => absurd h habove⟩

/-- A point that is found lies in the interval. -/
theorem Interval.contains_of_pointOn {tie : Tie} {i : Interval} {k : Int} {d : Nat} (h : i.pointOn tie k = some d) :
    i.Contains (d * 10 ^ k) :=
  (i.fits_iff k d).mp ((i.pointOn_spec tie k).1 d h).2

/-- The first point of a grid above a number is at most one step above it. -/
theorem next_gridPoint (scale k : Int) (n : Nat) :
    (n : ℚ) * 2 ^ scale < (n * (gridFactors scale k).1 / (gridFactors scale k).2 + 1 : Nat) * 10 ^ k ∧
      ((n * (gridFactors scale k).1 / (gridFactors scale k).2 + 1 : Nat) : ℚ) * 10 ^ k ≤ n * 2 ^ scale + 10 ^ k := by
  obtain ⟨c, hc, hscale, hgrid⟩ := gridFactors_spec scale k
  generalize (gridFactors scale k).1 = a at *
  generalize (gridFactors scale k).2 = b at *
  have hb : 0 < b := by
    have hone := hgrid 1
    rw [Nat.one_mul, Nat.cast_one, one_mul] at hone
    have hpos : (0 : ℚ) < b := by
      rw [← hone]
      positivity
    exact_mod_cast hpos
  have hbelow : (n * a / b + 1) * b ≤ n * a + b := by
    rw [Nat.succ_mul]
    exact Nat.add_le_add_right (Nat.div_mul_le_self _ _) _
  have habove : n * a < (n * a / b + 1) * b := Nat.lt_mul_of_div_lt (Nat.lt_succ_self _) hb
  constructor
  · rw [← mul_lt_mul_iff_left₀ hc, hscale, hgrid]
    exact_mod_cast habove
  · have hstep := hgrid 1
    rw [Nat.cast_one, one_mul, Nat.one_mul] at hstep
    rw [← mul_le_mul_iff_left₀ hc, add_mul, hscale, hgrid, hstep]
    exact_mod_cast hbelow

/-- On a grid finer than half the unit of a double, the point above its value lies in the interval. -/
theorem Interval.exists_pointOn (tie : Tie) {m : Nat} (hm : 0 < m) {q k : Int} (hk : (10 : ℚ) ^ k < 2 ^ (q - 1)) :
    ∃ d, (Interval.around m q).pointOn tie k = some d := by
  apply ((Interval.around m q).pointOn_spec tie k).2
  rw [fits_iff]
  have hunit : (2 : ℚ) ^ (q - 1) = 2 * 2 ^ (q - 2) := by
    rw [← zpow_one_add₀ two_ne_zero]
    congr 1
    ring
  obtain ⟨hlow, hhigh⟩ := next_gridPoint (q - 2) k (4 * m)
  show (Interval.around m q).Contains
    ((4 * m * (gridFactors (q - 2) k).1 / (gridFactors (q - 2) k).2 + 1 : Nat) * 10 ^ k)
  generalize 4 * m * (gridFactors (q - 2) k).1 / (gridFactors (q - 2) k).2 + 1 = d at *
  have hfirst : (((Interval.around m q).low : Nat) : ℚ) ≤ (4 * m : Nat) := by
    rw [Nat.cast_le]
    simp only [Interval.around]
    split_ifs <;> omega
  have hpos : (0 : ℚ) < 2 ^ (q - 2) := by positivity
  have hleft : ((Interval.around m q).low : ℚ) * 2 ^ (q - 2) < d * 10 ^ k :=
    (mul_le_mul_of_nonneg_right hfirst hpos.le).trans_lt hlow
  have hright : (d : ℚ) * 10 ^ k < ((Interval.around m q).high : Nat) * 2 ^ (q - 2) := by
    show (d : ℚ) * 10 ^ k < ((4 * m + 2 : Nat) : ℚ) * 2 ^ (q - 2)
    rw [Nat.cast_add, add_mul]
    rw [hunit] at hk
    exact hhigh.trans_lt (add_lt_add_right hk _)
  exact ⟨hleft.le, hright.le, .inr ⟨hleft, hright⟩⟩

/-! ## The search -/

theorem Interval.exists_firstPoint {tie : Tie} {i : Interval} {n : Nat} {k : Int} {j : Nat} (hj : j < n)
    (h : ∃ d, i.pointOn tie (k - j) = some d) :
    ∃ s, i.firstPoint tie n k = some s := by
  induction n generalizing k j with
  | zero => omega
  | succ n ih =>
    rw [firstPoint]
    cases hpoint : i.pointOn tie k with
    | some d => exact ⟨_, rfl⟩
    | none =>
      cases j with
      | zero =>
        obtain ⟨d, hd⟩ := h
        rw [Nat.cast_zero, sub_zero, hpoint] at hd
        cases hd
      | succ j =>
        refine ih (j := j) (by omega) ?_
        rw [show k - 1 - (j : Int) = k - (j + 1 : Nat) by push_cast; ring]
        exact h

theorem Interval.contains_of_firstPoint {tie : Tie} {i : Interval} {n : Nat} {k : Int} {s : Digits}
    (h : i.firstPoint tie n k = some s) : i.Contains (s.digits * 10 ^ s.exponent) := by
  induction n generalizing k with
  | zero => cases h
  | succ n ih =>
    rw [firstPoint] at h
    cases hpoint : i.pointOn tie k with
    | some d =>
      rw [hpoint] at h
      rw [← Option.some.inj h]
      exact contains_of_pointOn hpoint
    | none =>
      rw [hpoint] at h
      exact ih h

/-- A power of ten against a power of two: `10 ^ 3` is less than `2 ^ 10`, and `10 ^ 28` more than `2 ^ 93`. -/
theorem ten_zpow_le {k p : Int} (h : 0 ≤ p ∧ 10 * k ≤ 3 * p ∨ p ≤ 0 ∧ 93 * k ≤ 28 * p) :
    (10 : ℚ) ^ k ≤ 2 ^ p := by
  rcases h with ⟨hp, hk⟩ | ⟨hp, hk⟩
  · rw [← pow_le_pow_iff_left₀ (by positivity) (by positivity) (show 10 ≠ 0 by decide)]
    calc ((10 : ℚ) ^ k) ^ 10 = 10 ^ (10 * k) := by rw [← zpow_natCast, ← zpow_mul, mul_comm]; rfl
      _ ≤ 10 ^ (3 * p) := zpow_le_zpow_right₀ (by norm_num) hk
      _ = (10 ^ 3) ^ p := by rw [zpow_mul]; rfl
      _ ≤ (2 ^ 10) ^ p := zpow_le_zpow_left₀ hp (by norm_num) (by norm_num)
      _ = (2 ^ p) ^ 10 := by rw [← zpow_natCast, ← zpow_natCast, ← zpow_mul, ← zpow_mul, mul_comm]
  · rw [← pow_le_pow_iff_left₀ (by positivity) (by positivity) (show 93 ≠ 0 by decide)]
    have hinv : ∀ b : ℚ, b ^ p = (b ^ (-p))⁻¹ := fun b => by rw [zpow_neg, inv_inv]
    calc ((10 : ℚ) ^ k) ^ 93 = 10 ^ (93 * k) := by rw [← zpow_natCast, ← zpow_mul, mul_comm]; rfl
      _ ≤ 10 ^ (28 * p) := zpow_le_zpow_right₀ (by norm_num) hk
      _ = (10 ^ 28) ^ p := by rw [zpow_mul]; rfl
      _ ≤ (2 ^ 93) ^ p := by
        rw [hinv, hinv]
        exact inv_anti₀ (by positivity) (zpow_le_zpow_left₀ (by omega) (by norm_num) (by norm_num))
      _ = (2 ^ p) ^ 93 := by rw [← zpow_natCast, ← zpow_natCast, ← zpow_mul, ← zpow_mul, mul_comm]

/-- The last grid of the search is finer than half the unit of a double. -/
theorem upperGrid_fine {m : Nat} {q : Int} (h : IsCanonical m q) (hm : 0 < m) (hq : q ≤ 971) :
    (10 : ℚ) ^ (upperGrid m q - 23) < 2 ^ (q - 1) := by
  have hlog : m.log2 ≤ 52 := Nat.le_of_lt_succ ((Nat.log2_lt (k := 53) hm.ne').mpr h.fits)
  have hlow := h.low
  have hle : (10 : ℚ) ^ (upperGrid m q - 23) ≤ 2 ^ (q - 2) := by
    apply ten_zpow_le
    rw [upperGrid]
    omega
  exact hle.trans_lt (zpow_lt_zpow_right₀ one_lt_two (by omega))

/-- The digits that are found lie in the interval of their double. -/
theorem contains_shortest (tie : Tie) {m : Nat} {q : Int} (h : IsCanonical m q) (hm : 0 < m) (hq : q ≤ 971) :
    (Interval.around m q).Contains ((shortest tie m q).digits * 10 ^ (shortest tie m q).exponent) := by
  obtain ⟨s, hs⟩ : ∃ s, (Interval.around m q).firstPoint tie 24 (upperGrid m q) = some s :=
    Interval.exists_firstPoint (j := 23) (by decide) (Interval.exists_pointOn tie hm (upperGrid_fine h hm hq))
  rw [shortest, if_neg hm.ne', hs]
  exact Interval.contains_of_firstPoint hs

end Backtest.Decimal
