import Backtest.Rule
import Backtest.Bar

/-!
# Trades

A signal is turned into trades by walking along the bars. Out of the market, the first bar that fires
with a positive close is an entry, unless it is the last bar; in the market, the first bar that does
not fire is the exit. A position that is still open at the last bar is closed there, and its trade
counts as forced.

`holdings` finds the positions, and `Holding.close` makes a trade of one, whose return must be
finite. So the trades of a run are those of its holdings, in order, or the first failure among them.
-/

namespace Backtest

/-- Why a trade ended. -/
inductive ExitReason where
  /-- The signal stopped firing. -/
  | signal
  /-- The bars ended. -/
  | endOfData
  deriving DecidableEq

def ExitReason.text : ExitReason → String
  | .signal => "signal"
  | .endOfData => "end_of_data"

/-- A closed trade. -/
structure Trade (α : Type) where
  direction : Direction
  entryDate : Date
  entryPrice : α
  exitDate : Date
  exitPrice : α
  returnPct : α
  reason : ExitReason

namespace Trade

variable {α : Type} [Scalar α]

def isWin (t : Trade α) : Bool := decide (((0 : Nat) : α) < t.returnPct)

def isLoss (t : Trade α) : Bool := decide (t.returnPct < ((0 : Nat) : α))

def holdingDays (t : Trade α) : Int := t.entryDate.daysUntil t.exitDate

/-- Whether the trade was closed because the bars ended. -/
def isForced (t : Trade α) : Bool := t.reason = .endOfData

end Trade

/-- A position with the bars of its entry and its exit. -/
structure Holding (α : Type) where
  entry : Bar α
  exit : Bar α
  reason : ExitReason

/-- The entry of a trade whose return is not finite. -/
structure BadReturn (α : Type) where
  date : Date
  price : α

section

variable {α : Type} [Scalar α]

/-- The return in percent of a move of the price by a ratio. -/
def Direction.returnPct (d : Direction) (ratio : α) : α :=
  match d with
  | .long => (ratio - (1 : Nat)) * (100 : Nat)
  | .short => ((1 : Nat) - ratio) * (100 : Nat)

/-- The trade of a holding. -/
def Holding.close (d : Direction) (h : Holding α) : Except (BadReturn α) (Trade α) :=
  let pct := d.returnPct (h.exit.close / h.entry.close)
  if Scalar.isFinite pct then
    .ok ⟨d, h.entry.date, h.entry.close, h.exit.date, h.exit.close, pct, h.reason⟩
  else .error ⟨h.entry.date, h.entry.close⟩

/-- The holdings of bars that are marked with a signal, where `entry` is the entry of the position
that is open in front of them. -/
def holdingsFrom (entry : Option (Bar α)) : List (Bar α × Bool) → List (Holding α)
  | [] => []
  | (bar, fires) :: rest =>
    match entry with
    | none =>
      if fires && !rest.isEmpty && decide (((0 : Nat) : α) < bar.close) then
        holdingsFrom (some bar) rest
      else holdingsFrom none rest
    | some e =>
      if !fires then ⟨e, bar, .signal⟩ :: holdingsFrom none rest
      else if rest.isEmpty then [⟨e, bar, .endOfData⟩]
      else holdingsFrom (some e) rest

/-- The holdings of a window of bars under a signal. -/
def holdings (window : List (Bar α)) (signal : List Bool) : List (Holding α) :=
  holdingsFrom none (window.zip signal)

/-- The trades of a window of bars under a signal. -/
def simulate (d : Direction) (window : List (Bar α)) (signal : List Bool) :
    Except (BadReturn α) (List (Trade α)) :=
  (holdings window signal).mapM (Holding.close d)

end

end Backtest
