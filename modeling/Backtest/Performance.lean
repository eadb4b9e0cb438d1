import Backtest.Run

/-!
# Performance

What a run earned. Trades compound in order: each multiplies the growth so far by one plus its
return, and a growth that reaches zero stays there. The equity curve gives the growth at each bar of
the window, as a return in percent; a trade counts from its exit on. A drawdown is measured from the
highest equity so far.
-/

namespace Backtest

/-- The equity at a bar: the return so far in percent. -/
structure EquityPoint (α : Type) where
  date : Date
  returnPct : α

/-- A fall of the equity below its peak, in percent, and a number of bars spent below a peak. -/
structure Drawdown (α : Type) where
  pct : α
  bars : Nat

structure Statistics (α : Type) where
  winning : Nat
  losing : Nat
  breakeven : Nat
  average : α
  best : α
  worst : α
  averageDays : α
  drawdown : Drawdown α
  /-- The bars on which the signal fires. -/
  signalBars : Nat

/-- What a run earned. -/
structure Performance (α : Type) where
  returnPct : α
  winRatePct : α
  trades : List (Trade α)
  equity : List (EquityPoint α)
  statistics : Statistics α

/-- The equity as a multiple of the beginning. -/
def EquityPoint.multiple {α : Type} [Scalar α] (p : EquityPoint α) : α :=
  (1 : Nat) + p.returnPct / (100 : Nat)

namespace Performance

variable {α : Type} [Scalar α]

/-- The growth after one more trade. -/
def compound (growth returnPct : α) : α :=
  if growth ≤ ((0 : Nat) : α) then (0 : Nat)
  else Scalar.larger (growth * ((1 : Nat) + returnPct / (100 : Nat))) ((0 : Nat) : α)

/-- The growth after some trades, in order. -/
def growth (begin : α) (trades : List (Trade α)) : α :=
  trades.foldl (fun g t => compound g t.returnPct) begin

/-- A growth as a return in percent. -/
def percent (growth : α) : α := (growth - (1 : Nat)) * (100 : Nat)

/-- The equity from a growth on: at each bar the trades that end there are compounded. -/
def equityFrom (g : α) (trades : List (Trade α)) : List (Bar α) → List (EquityPoint α)
  | [] => []
  | bar :: rest =>
    let ending := trades.takeWhile fun t => t.exitDate = bar.date
    let after := trades.dropWhile fun t => t.exitDate = bar.date
    let g := growth g ending
    ⟨bar.date, percent g⟩ :: equityFrom g after rest

def equityCurve (run : Run α) : List (EquityPoint α) :=
  equityFrom ((1 : Nat) : α) run.trades run.window

/-- What a walk along the equity remembers: the peak so far, the deepest and the longest drawdown so
far, and the bars since the peak. -/
structure Walk (α : Type) where
  peak : α
  deepest : α
  longest : Nat
  current : Nat

/-- The walk after one more equity. -/
def Walk.step (w : Walk α) (equity : α) : Walk α :=
  if w.peak ≤ equity then { w with peak := equity, current := 0 }
  else if ((0 : Nat) : α) < w.peak then
    { w with
      deepest := Scalar.larger w.deepest ((w.peak - equity) / w.peak * (100 : Nat))
      current := w.current + 1
      longest := max w.longest (w.current + 1) }
  else w

/-- The deepest and the longest drawdown of an equity curve. -/
def drawdown : List (EquityPoint α) → Drawdown α
  | [] => ⟨(0 : Nat), 0⟩
  | p :: rest =>
    let begin : Walk α := ⟨p.multiple, (0 : Nat), 0, 0⟩
    let w := (p :: rest).foldl (fun w q => w.step q.multiple) begin
    ⟨w.deepest, w.longest⟩

/-- The extreme of some numbers, zero if there are none. -/
def extreme (choose : α → α → α) : List α → α
  | [] => (0 : Nat)
  | x :: xs => xs.foldl choose x

/-- The statistics of a run with its equity curve. -/
def summarize (run : Run α) (equity : List (EquityPoint α)) : Statistics α :=
  let returns := run.trades.map (·.returnPct)
  let winning := run.trades.countP (·.isWin)
  let losing := run.trades.countP (·.isLoss)
  { winning
    losing
    breakeven := run.trades.length - winning - losing
    average := Scalar.mean returns
    best := extreme Scalar.larger returns
    worst := extreme Scalar.smaller returns
    averageDays := Scalar.mean (run.trades.map fun t => Scalar.ofInt t.holdingDays)
    drawdown := drawdown equity
    signalBars := run.signal.countP id }

/-- The share of winning trades in percent; zero without trades. -/
def winRate (trades : List (Trade α)) : α :=
  if trades.isEmpty then ((0 : Nat) : α)
  else ((trades.countP (·.isWin) : Nat) : α) / (trades.length : α) * (100 : Nat)

def ofRun (run : Run α) : Performance α :=
  let equity := equityCurve run
  { returnPct := percent (growth ((1 : Nat) : α) run.trades)
    winRatePct := winRate run.trades
    trades := run.trades
    equity
    statistics := summarize run equity }

end Performance

end Backtest
