import Backtest.Market
import Backtest.Proofs.Equity
import Backtest.Proofs.Checked.Performance
import Backtest.Proofs.Checked.Run
import Backtest.Proofs.Checked.Token

/-!
# From a candidate to its report, by positions

`Checked.backtest` reads a candidate, fetches the bars of its ticker, runs the rule and sums up what it earned,
position by position. `backtest_without_trap`: whatever value is offered, whatever source there is, whatever bars
it hands out and whatever the window is, no step traps, and the result is the one of the program. The only bounds
are those of what a machine can hold: strings and histories have less than `2 ^ 64` bytes and bars.

Each part relies on what the parts before it have settled. A rule that was read has a condition and short periods,
so the bars that it requires can be counted and its signal is as long as the bars; a window that is not empty lies
inside of the bars; and there are no more trades than bars.
-/

namespace Backtest

variable {σ : Type}

namespace PriceSource

/-- The report on a rule and its bars, where the series are checked in an order of one's own. -/
def reportInOrder (order : Indicator.Table Float → List (Indicator.Series Float)) (rule : Rule Float)
    (window : Window) : Except Failure (List (Bar Float)) → Except Failure Report
  | .error failure => .error failure
  | .ok [] => .error (.unresolvable rule.ticker "no price history")
  | .ok bars =>
    match rule.runInOrder order bars window with
    | .ok run => .ok (Report.ofRun rule run)
    | .error fault => .error (Failure.ofRunFault rule.ticker fault)

/-- The report on a candidate, where the series are checked in an order of one's own. -/
def backtestInOrder (order : Indicator.Table Float → List (Indicator.Series Float)) (source : PriceSource σ)
    (s : σ) (candidate : Json) (timeframe : Timeframe) (window : Window) : Except Failure Report × σ :=
  match source.validate s candidate with
  | .error failure => (.error failure, s)
  | .ok rule =>
    let (fetched, next) := source.fetch s rule.ticker timeframe
    (reportInOrder order rule window fetched, next)

/-- The program checks the series in the order of first use. -/
theorem backtestInOrder_id (source : PriceSource σ) (s : σ) (candidate : Json) (timeframe : Timeframe)
    (window : Window) :
    source.backtestInOrder id s candidate timeframe window = source.backtest s candidate timeframe window := by
  have hreport (rule : Rule Float) (fetched : Except Failure (List (Bar Float))) :
      reportInOrder id rule window fetched = report rule window fetched := by
    match fetched with
    | .error _ | .ok [] | .ok (_ :: _) => rfl
  rw [backtestInOrder, backtest]
  cases source.validate s candidate with
  | error failure => rfl
  | ok rule => exact Prod.ext (hreport rule _) rfl

end PriceSource

namespace Checked

def report (order : Indicator.Table Float → List (Indicator.Series Float)) (rule : Rule Float)
    (window : Window) : Except Failure (List (Bar Float)) → Answer Failure Report
  | .error failure => throw failure
  | .ok [] => throw (.unresolvable rule.ticker "no price history")
  | .ok bars => do
    let run ← refusing (Failure.ofRunFault rule.ticker) (runInOrder order rule bars window)
    let performance ← lift (performance run)
    pure (Report.ofPerformance rule run performance)

def backtest (order : Indicator.Table Float → List (Indicator.Series Float)) (source : PriceSource σ) (s : σ)
    (candidate : Json) (timeframe : Timeframe) (window : Window) : Checked (Except Failure Report × σ) := do
  match ← (ofCandidate (source.resolves s) candidate).run with
  | .error defect => .ok (.error (Failure.ofDefect defect), s)
  | .ok rule =>
    let (fetched, next) := source.fetch s rule.ticker timeframe
    let result ← (report order rule window fetched).run
    .ok (result, next)

/-- A run has no more bars than its history, and no more trades than bars. -/
theorem length_of_runInOrder {order : Indicator.Table Float → List (Indicator.Series Float)} {r : Rule Float}
    {bars : List (Bar Float)} {w : Window} {run : Run Float} (hrun : r.runInOrder order bars w = .ok run) :
    run.window.length ≤ bars.length ∧ run.trades.length ≤ run.window.length := by
  obtain ⟨-, -, hexits⟩ := Rule.runInOrder_dates hrun
  obtain ⟨marked, hmarked, -, -, -, -, trades, -, rfl⟩ := Rule.runInOrder_eq_ok_iff.mp hrun
  have hbars : (marked.map (·.1)).length ≤ bars.length := by
    rw [hmarked]
    exact (((w.cut_sublist _ _).map _).trans (map_fst_zip_sublist _ _)).length_le
  exact ⟨hbars, by simpa using hexits.length_le⟩

theorem report_eq (order : Indicator.Table Float → List (Indicator.Series Float)) {rule : Rule Float}
    (hrule : rule.IsSound) (window : Window) {fetched : Except Failure (List (Bar Float))}
    (hfetched : ∀ bars, fetched = .ok bars → bars.length < 2 ^ 64) :
    report order rule window fetched = answer (PriceSource.reportInOrder order rule window fetched) := by
  match fetched with
  | .error _ | .ok [] => rfl
  | .ok (b :: rest) =>
    have hbars : (b :: rest).length < 2 ^ 64 := hfetched _ rfl
    have hrequired : ∀ c ∈ rule.conditions, c.requiredBars < 2 ^ 64 := fun c hc =>
      (hrule.conditions c hc).requiredBars_le.trans_lt (by decide)
    simp only [report, PriceSource.reportInOrder, runInOrder_eq order hrule.nonempty hrequired hbars,
      refusing_answer]
    cases hrun : rule.runInOrder order (b :: rest) window with
    | error fault => rfl
    | ok run =>
      obtain ⟨hwindow, htrades⟩ := length_of_runInOrder hrun
      have hperformance := performance_eq (htrades.trans_lt (hwindow.trans_lt hbars))
        (hwindow.trans_lt hbars)
      simp only [Except.mapError, answer_ok_bind, hperformance, lift_ok_bind]
      rfl

/-- **No trap on the way to a report.** For every value, source, timeframe and window, and for every order in
which the series are checked, the computation by positions comes to its end, and what it gives is the report or
the failure of the program. -/
theorem backtest_without_trap (order : Indicator.Table Float → List (Indicator.Series Float))
    (source : PriceSource σ) (s : σ) {candidate : Json} (hcandidate : candidate.Fits) (timeframe : Timeframe)
    (window : Window)
    (hfetch : ∀ ticker bars, (source.fetch s ticker timeframe).1 = .ok bars → bars.length < 2 ^ 64) :
    backtest order source s candidate timeframe window =
      .ok (source.backtestInOrder order s candidate timeframe window) := by
  rw [backtest, PriceSource.backtestInOrder, PriceSource.validate, ofCandidate_eq _ hcandidate, run_answer, ok_bind]
  cases hrule : Rule.ofCandidate (source.resolves s) candidate with
  | error defect => rfl
  | ok rule =>
    have hsound := Rule.isSound_of_ofCandidate hrule
    simp only [report_eq order hsound window (hfetch rule.ticker), run_answer, ok_bind]

/-- A source of three falling prices, whatever the ticker is. -/
def fallingPrices : PriceSource Unit where
  resolves _ _ := true
  fetch s _ _ := (.ok (Bar.flatHistory [3, 2, 1]), s)

/-- The strategy to buy while the mean of two closes is above the price. -/
def meanAbovePrice : Json :=
  .obj [("ticker", .str "ACME"), ("action", .str "buy"),
    ("conditions", .arr [
      .obj [("indicator", .str "sma(2)"), ("operator", .str ">"), ("value", .str "price")]])]

/-- Three bars give one trade, and no step on the way traps. -/
theorem backtest_without_trap_fallingPrices :
    meanAbovePrice.Fits ∧
      (∀ ticker bars, (fallingPrices.fetch () ticker .daily).1 = .ok bars → bars.length < 2 ^ 64) ∧
      backtest id fallingPrices () meanAbovePrice .daily .everything =
        .ok (fallingPrices.backtestInOrder id () meanAbovePrice .daily .everything) ∧
      ∃ report, (fallingPrices.backtestInOrder id () meanAbovePrice .daily .everything).1 = .ok report ∧
        report.trades.length = 1 := by
  have hfits : meanAbovePrice.Fits := by
    have hcondition : (Json.obj [("indicator", .str "sma(2)"), ("operator", .str ">"),
        ("value", .str "price")]).Fits := by
      refine .obj ?_
      simp only [List.forall_mem_cons, List.not_mem_nil, false_implies, implies_true, and_true]
      exact ⟨.str (by decide), .str (by decide), .str (by decide)⟩
    refine .obj ?_
    simp only [List.forall_mem_cons, List.not_mem_nil, false_implies, implies_true, and_true]
    exact ⟨.str (by decide), .str (by decide), .arr (List.forall_mem_singleton.mpr hcondition)⟩
  have hbars : ∀ ticker bars, (fallingPrices.fetch () ticker .daily).1 = .ok bars → bars.length < 2 ^ 64 := by
    rintro ticker bars h
    rw [← Except.ok.inj h]
    decide
  exact ⟨hfits, hbars, backtest_without_trap id fallingPrices () hfits .daily .everything hbars, _, rfl, rfl⟩

end Checked

end Backtest
