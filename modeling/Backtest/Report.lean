import Backtest.Performance
import Backtest.Failure

/-!
# Reports

A `Report` is what a caller gets for a strategy: the rounded totals, the rule itself, the data of a
chart, the trades and the statistics. The chart marks each trade twice, at its entry and its exit.
`Report.toJson` fixes the names and the order of the members.
-/

namespace Backtest

/-- A mark on the chart, where a trade begins or ends. -/
structure Marker where
  date : Date
  price : Float
  isExit : Bool
  direction : Direction
  /-- The trade ends there because the bars end. -/
  isForced : Bool

/-- The marks of a trade. -/
def Trade.markers (t : Trade Float) : List Marker :=
  [⟨t.entryDate, t.entryPrice, false, t.direction, false⟩,
    ⟨t.exitDate, t.exitPrice, true, t.direction, t.isForced⟩]

/-- The data of a chart. -/
structure Chart where
  ticker : String
  prices : List (Date × Float)
  equity : List (EquityPoint Float)
  markers : List Marker

/-- The answer to a strategy. -/
structure Report where
  returnPct : Float
  winRatePct : Float
  rule : Rule Float
  chart : Chart
  trades : List (Trade Float)
  statistics : Statistics Float

/-- A number with two places, a half going away from zero. -/
def roundCents (x : Float) : Float :=
  let hundred := (UInt64.ofNat 100).toFloat
  Decimal.roundWhole (x * hundred) / hundred

namespace Report

/-- The report of a rule, a run and its performance. -/
def ofPerformance (rule : Rule Float) (run : Run Float) (p : Performance Float) : Report where
  returnPct := roundCents p.returnPct
  winRatePct := roundCents p.winRatePct
  rule := rule
  chart :=
    { ticker := run.ticker
      prices := run.window.map fun b => (b.date, b.close)
      equity := p.equity
      markers := run.trades.flatMap Trade.markers }
  trades := p.trades
  statistics := p.statistics

def ofRun (rule : Rule Float) (run : Run Float) : Report :=
  ofPerformance rule run (Performance.ofRun run)

/-- Runs a rule over a history and reports on it. -/
def ofHistory (rule : Rule Float) (bars : List (Bar Float)) (window : Window) :
    Except Failure Report :=
  match rule.run bars window with
  | .ok run => .ok (ofRun rule run)
  | .error fault => .error (Failure.ofRunFault rule.ticker fault)

end Report

/-! ## JSON -/

def Date.toJson (d : Date) : Json := .str d.text

def Marker.toJson (m : Marker) : Json :=
  .obj [("date", m.date.toJson), ("price", .ofFloat m.price),
    ("kind", .str (if m.isExit then "exit" else "entry")), ("direction", .str m.direction.text),
    ("forced", .bool m.isForced)]

def Trade.toJson (t : Trade Float) : Json :=
  .obj [("direction", .str t.direction.text), ("entry_date", t.entryDate.toJson),
    ("entry_price", .ofFloat t.entryPrice), ("exit_date", t.exitDate.toJson),
    ("exit_price", .ofFloat t.exitPrice), ("pnl_pct", .ofFloat t.returnPct),
    ("exit_reason", .str t.reason.text)]

def EquityPoint.toJson (p : EquityPoint Float) : Json :=
  .obj [("date", p.date.toJson), ("cumulative_return_pct", .ofFloat p.returnPct)]

def Statistics.toJson (s : Statistics Float) : Json :=
  .obj [("winning_trades", .ofNat s.winning), ("losing_trades", .ofNat s.losing),
    ("breakeven_trades", .ofNat s.breakeven), ("avg_trade_pct", .ofFloat s.average),
    ("best_trade_pct", .ofFloat s.best), ("worst_trade_pct", .ofFloat s.worst),
    ("avg_holding_days", .ofFloat s.averageDays), ("max_drawdown_pct", .ofFloat s.drawdown.pct),
    ("max_drawdown_duration", .ofNat s.drawdown.bars), ("signal_bars", .ofNat s.signalBars)]

def Chart.toJson (c : Chart) : Json :=
  .obj [("ticker", .str c.ticker),
    ("prices", .arr (c.prices.map fun (date, close) =>
      .obj [("date", date.toJson), ("close", .ofFloat close)])),
    ("equity_curve", .arr (c.equity.map EquityPoint.toJson)),
    ("markers", .arr (c.markers.map Marker.toJson))]

def Report.toJson (r : Report) : Json :=
  .obj [("return", .ofFloat r.returnPct), ("win_rate", .ofFloat r.winRatePct),
    ("trades", .ofNat r.trades.length), ("strategySummary", r.rule.summary),
    ("chart", r.chart.toJson), ("trade_log", .arr (r.trades.map Trade.toJson)),
    ("stats", r.statistics.toJson)]

end Backtest
