import Backtest.Report
import Backtest.Proofs.Double
import Backtest.Proofs.Checked.Access

/-!
# Performance by positions

What is counted on the way to the statistics of a run: the trades that neither win nor lose are what is left of
all trades, the mean counts its numbers, and a drawdown counts its bars. `summarize_eq`: none of the counts traps,
since no trade both wins and loses and there are no more counts than trades and bars.
-/

namespace Backtest.Checked

variable {α : Type} [Scalar α]

/-- The sum and the count of some numbers, on top of a sum and a count. -/
def countSum (sum : α) (n : Nat) : List α → Checked (α × Nat)
  | [] => .ok (sum, n)
  | x :: rest => do countSum (sum + x) (← add n 1) rest

def mean (xs : List α) : Checked α := do
  let (sum, n) ← countSum ((0 : Nat) : α) 0 xs
  .ok (if 0 < n then sum / (n : α) else (0 : Nat))

/-- The walk along the equity after one more equity. -/
def walkStep (w : Performance.Walk α) (equity : α) : Checked (Performance.Walk α) :=
  if w.peak ≤ equity then .ok { w with peak := equity, current := 0 }
  else if ((0 : Nat) : α) < w.peak then do
    let current ← add w.current 1
    .ok { w with
      deepest := Scalar.larger w.deepest ((w.peak - equity) / w.peak * (100 : Nat))
      current := current
      longest := max w.longest current }
  else .ok w

def drawdown : List (EquityPoint α) → Checked (Drawdown α)
  | [] => .ok ⟨(0 : Nat), 0⟩
  | p :: rest => do
    let begin : Performance.Walk α := ⟨p.multiple, (0 : Nat), 0, 0⟩
    let w ← (p :: rest).foldlM (fun w q => walkStep w q.multiple) begin
    .ok ⟨w.deepest, w.longest⟩

/-- The number of trades that neither win nor lose. -/
def breakeven (trades : List (Trade α)) : Checked Nat := do
  let notWinning ← sub trades.length (trades.countP (·.isWin))
  sub notWinning (trades.countP (·.isLoss))

def summarize (run : Run α) (equity : List (EquityPoint α)) : Checked (Statistics α) := do
  let returns := run.trades.map (·.returnPct)
  let breakeven ← breakeven run.trades
  let average ← mean returns
  let averageDays ← mean (run.trades.map fun t => Scalar.ofInt t.holdingDays)
  let drawdown ← drawdown equity
  .ok {
    winning := run.trades.countP (·.isWin)
    losing := run.trades.countP (·.isLoss)
    breakeven
    average
    best := Performance.extreme Scalar.larger returns
    worst := Performance.extreme Scalar.smaller returns
    averageDays
    drawdown
    signalBars := run.signal.countP id }

def performance (run : Run α) : Checked (Performance α) := do
  let equity := Performance.equityCurve run
  let statistics ← summarize run equity
  .ok {
    returnPct := Performance.percent (Performance.growth ((1 : Nat) : α) run.trades)
    winRatePct := Performance.winRate run.trades
    trades := run.trades
    equity
    statistics }

theorem countSum_eq (xs : List α) :
    ∀ (sum : α) (n : Nat), n + xs.length < 2 ^ 64 →
      countSum sum n xs = .ok (xs.foldl (· + ·) sum, n + xs.length) := by
  induction xs with
  | nil => exact fun _ _ _ => rfl
  | cons x rest ih =>
    intro sum n h
    rw [List.length_cons] at h
    rw [countSum, add_eq (by omega), ok_bind, ih _ _ (by omega), List.foldl_cons, List.length_cons]
    congr 2
    omega

theorem mean_eq {xs : List α} (h : xs.length < 2 ^ 64) : mean xs = .ok (Scalar.mean xs) := by
  rw [mean, countSum_eq xs _ 0 (by rwa [Nat.zero_add]), ok_bind, Nat.zero_add, Scalar.mean]
  cases xs <;> rfl

theorem walkStep_eq {w : Performance.Walk α} (h : w.current + 1 < 2 ^ 64) (equity : α) :
    walkStep w equity = .ok (w.step equity) := by
  rw [walkStep, Performance.Walk.step, add_eq h]
  split_ifs <;> rfl

/-- A drawdown lasts one bar more at most with each bar. -/
theorem current_step_le (w : Performance.Walk α) (equity : α) : (w.step equity).current ≤ w.current + 1 := by
  rw [Performance.Walk.step]
  split_ifs
  · exact Nat.zero_le _
  · exact Nat.le_refl _
  · exact Nat.le_succ _

theorem walk_eq (points : List (EquityPoint α)) :
    ∀ w : Performance.Walk α, w.current + points.length < 2 ^ 64 →
      points.foldlM (fun w q => walkStep w q.multiple) w =
        .ok (points.foldl (fun w q => w.step q.multiple) w) := by
  induction points with
  | nil => exact fun _ _ => rfl
  | cons p rest ih =>
    intro w h
    rw [List.length_cons] at h
    have hcurrent := current_step_le w p.multiple
    rw [List.foldlM_cons, walkStep_eq (by omega), ok_bind, ih _ (by omega), List.foldl_cons]

theorem drawdown_eq {points : List (EquityPoint α)} (h : points.length < 2 ^ 64) :
    drawdown points = .ok (Performance.drawdown points) := by
  cases points with
  | nil => rfl
  | cons p rest =>
    rw [drawdown, walk_eq (p :: rest) _ (by rwa [Nat.zero_add])]
    rfl

/-- No trade both wins and loses, so winning and losing trades are not more than all. -/
theorem countP_add_le (trades : List (Trade Float)) :
    trades.countP (·.isWin) + trades.countP (·.isLoss) ≤ trades.length := by
  have hloss : trades.countP (·.isLoss) ≤ trades.countP fun t => !t.isWin := by
    refine List.countP_mono_left fun t _ hlose => ?_
    have hlt : t.returnPct < ((0 : Nat) : Float) := of_decide_eq_true hlose
    exact Bool.not_eq_true' _ |>.mpr
      (decide_eq_false (Decimal.not_lt_of_le (Decimal.le_of_lt hlt)))
  have hall : trades.length = trades.countP (·.isWin) + trades.countP fun t => !t.isWin := by
    simpa using List.length_eq_countP_add_countP (fun t : Trade Float => t.isWin) (l := trades)
  omega

theorem breakeven_eq (trades : List (Trade Float)) :
    breakeven trades =
      .ok (trades.length - trades.countP (·.isWin) - trades.countP (·.isLoss)) := by
  have := countP_add_le trades
  rw [breakeven, sub_eq (by omega), ok_bind, sub_eq (by omega)]

theorem length_equityFrom (bars : List (Bar α)) :
    ∀ (g : α) (trades : List (Trade α)), (Performance.equityFrom g trades bars).length = bars.length := by
  induction bars with
  | nil => exact fun _ _ => rfl
  | cons b rest ih => exact fun g trades => congrArg (· + 1) (ih _ _)

theorem summarize_eq {run : Run Float} {equity : List (EquityPoint Float)}
    (htrades : run.trades.length < 2 ^ 64) (hequity : equity.length < 2 ^ 64) :
    summarize run equity = .ok (Performance.summarize run equity) := by
  rw [summarize, breakeven_eq, ok_bind, mean_eq (by rwa [List.length_map]), ok_bind,
    mean_eq (by rwa [List.length_map]), ok_bind, drawdown_eq hequity]
  rfl

theorem performance_eq {run : Run Float} (htrades : run.trades.length < 2 ^ 64)
    (hwindow : run.window.length < 2 ^ 64) : performance run = .ok (Performance.ofRun run) := by
  have hequity : (Performance.equityCurve run).length < 2 ^ 64 := (length_equityFrom _ _ _).trans_lt hwindow
  rw [performance, summarize_eq htrades hequity]
  rfl

end Backtest.Checked
