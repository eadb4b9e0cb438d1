import Backtest.Report

/-!
# Sources of prices

A `PriceSource` answers which tickers it knows and hands out their bars. It may change as it is used,
so it works on a state: a directory of files, a cache over another source, a count of the fetches.
`PriceSource.backtest` takes a candidate all the way to its report.
-/

namespace Backtest

/-- The length of the period that a bar stands for. -/
inductive Timeframe where
  | daily
  | weekly
  | monthly
  deriving DecidableEq

namespace Timeframe

def text : Timeframe → String
  | .daily => "1d"
  | .weekly => "1wk"
  | .monthly => "1mo"

/-- The timeframe that a word names, in any case. -/
def read (raw : String) : Except String Timeframe :=
  match Text.folded raw with
  | "1d" | "d" | "daily" => .ok .daily
  | "1wk" | "1w" | "w" | "weekly" => .ok .weekly
  | "1mo" | "1m" | "m" | "monthly" => .ok .monthly
  | other => .error ("unknown timeframe '" ++ other ++ "'")

end Timeframe

/-- Where prices come from, over a state of type `σ`. -/
structure PriceSource (σ : Type) where
  /-- Whether there are prices for a ticker. -/
  resolves : σ → String → Bool
  /-- The bars of a ticker, or why there are none. -/
  fetch : σ → String → Timeframe → Except Failure (List (Bar Float)) × σ

namespace PriceSource

variable {σ : Type}

/-- A source that counts how often it is asked for bars. -/
def counting (source : PriceSource σ) : PriceSource (σ × Nat) where
  resolves s ticker := source.resolves s.1 ticker
  fetch s ticker timeframe :=
    let (result, next) := source.fetch s.1 ticker timeframe
    (result, (next, s.2 + 1))

/-- The report on a rule and the bars that were fetched for it. -/
def report (rule : Rule Float) (window : Window) :
    Except Failure (List (Bar Float)) → Except Failure Report
  | .error failure => .error failure
  | .ok [] => .error (.unresolvable rule.ticker "no price history")
  | .ok bars => Report.ofHistory rule bars window

/-- The rule of a candidate, for the tickers of a source. -/
def validate (source : PriceSource σ) (s : σ) (candidate : Json) : Except Failure (Rule Float) :=
  match Rule.ofCandidate (source.resolves s) candidate with
  | .ok rule => .ok rule
  | .error defect => .error (Failure.ofDefect defect)

/-- The report on a candidate. -/
def backtest (source : PriceSource σ) (s : σ) (candidate : Json) (timeframe : Timeframe)
    (window : Window) : Except Failure Report × σ :=
  match source.validate s candidate with
  | .error failure => (.error failure, s)
  | .ok rule =>
    let (fetched, next) := source.fetch s rule.ticker timeframe
    (report rule window fetched, next)

end PriceSource

end Backtest
