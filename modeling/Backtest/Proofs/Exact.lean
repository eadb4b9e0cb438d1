import Mathlib
import Backtest.Run
import Backtest.Proofs.Trades

/-!
# Exact arithmetic

The formulas of the program read at an ordered field: no operation rounds, and every number is finite. So the
extremes are those of the order (`Exact.larger_eq`), a sum from left to right is the sum (`Exact.total_eq`), and no
check for numbers that are not finite ever fails (`Exact.checkFinite_eq`, `Exact.simulate_eq`). What is left of a run
is `Exact.runInOrder_eq`.
-/

-- Outside of the namespace, since `Field` in there is the field of an indicator.
/-- Numbers that are computed with exactly. -/
class OrderedField (K : Type) extends Field K, LinearOrder K, IsStrictOrderedRing K

instance : OrderedField ℚ where

namespace Backtest.Exact

variable {K : Type} [OrderedField K]

open Classical in
/-- The root of a number, or zero for a number without a root. -/
noncomputable def root (x : K) : K :=
  if h : ∃ y : K, 0 ≤ y ∧ y * y = x then h.choose else 0

theorem root_eq {x y : K} (hy : 0 ≤ y) (hx : y * y = x) : root x = y := by
  have hexists : ∃ y : K, 0 ≤ y ∧ y * y = x := ⟨y, hy, hx⟩
  rw [root, dif_pos hexists]
  obtain ⟨hz, hzx⟩ := hexists.choose_spec
  exact (mul_self_inj hz hy).mp (hzx.trans hx.symm)

/-- The operations of an ordered field. -/
noncomputable scoped instance scalar : Scalar K where
  decLt := inferInstance
  decLe := inferInstance
  abs x := |x|
  sqrt := root
  isFinite _ := true

theorem isFinite_eq (x : K) : Scalar.isFinite x = true := rfl

theorem abs_def (x : K) : Scalar.abs x = |x| := rfl

theorem larger_eq (x y : K) : Scalar.larger x y = max x y := by
  unfold Scalar.larger
  rw [max_def]
  split_ifs with h h' <;> grind

theorem clamp_eq {low high x : K} (hlow : low ≤ x) (hhigh : x ≤ high) : Scalar.clamp low high x = x := by
  rw [Scalar.clamp, if_neg (not_lt.mpr hlow), if_neg (not_lt.mpr hhigh)]

theorem foldl_add_eq (x : K) (xs : List K) : xs.foldl (· + ·) x = x + xs.sum := by
  induction xs generalizing x with
  | nil => simp
  | cons y xs ih => rw [List.foldl_cons, ih, List.sum_cons, add_assoc]

theorem total_eq (xs : List K) : Scalar.total xs = xs.sum := by
  cases xs with
  | nil => exact Nat.cast_zero
  | cons x xs => rw [Scalar.total, foldl_add_eq, List.sum_cons]

theorem checkFinite_eq (s : List (Indicator.Series K)) : Rule.checkFinite s = .ok () := by
  induction s with
  | nil => rfl
  | cons s rest ih =>
    have hfind : s.points.find? (fun p => !p.isFinite) = none := by
      rw [List.find?_eq_none]
      intro p _
      cases hp : p.reading <;> simp [Indicator.Point.isFinite, hp, isFinite_eq]
    rw [Rule.checkFinite, Indicator.Series.checkFinite, hfind]
    exact ih

theorem simulate_eq (d : Direction) (window : List (Bar K)) (signal : List Bool) :
    simulate d window signal = .ok ((holdings window signal).map (Holding.trade d)) :=
  mapM_close_of_finite fun _ _ => isFinite_eq _

/-- With exact arithmetic, a run is refused for its history or its window alone, and the order in which the series are
checked does not count. -/
theorem runInOrder_eq (order : Indicator.Table K → List (Indicator.Series K)) (r : Rule K) (bars : List (Bar K))
    (w : Window) : r.runInOrder order bars w =
      match Bar.check bars with
      | .error fault => .error (.badHistory fault)
      | .ok () =>
        match r.checkHistory bars with
        | .error fault => .error fault
        | .ok () =>
          let marked := w.cut (·.1.date) (bars.zip (r.signal (Indicator.table r.indicators bars) bars))
          if marked.isEmpty then .error (.emptyWindow w)
          else .ok ⟨r.ticker, marked.map (·.1), marked.map (·.2),
            (holdings (marked.map (·.1)) (marked.map (·.2))).map (Holding.trade r.direction)⟩ := by
  unfold Rule.runInOrder
  cases Bar.check bars with
  | error fault => rfl
  | ok =>
    cases r.checkHistory bars with
    | error fault => rfl
    | ok =>
      simp only [checkFinite_eq, simulate_eq]
      split_ifs
      · rfl
      · rfl

end Backtest.Exact
