import Backtest.Signal
import Backtest.Trade

/-!
# Running a rule over a history

`Rule.run` runs a rule over a price history: it checks the bars, asks for enough of them, computes
the indicators and the signal over all bars, cuts out the window, and simulates the trades there. The
indicators see the bars in front of the window, so a window does not change what they say in it.

The indicators are checked to be finite in some order; `Rule.runInOrder` takes this order as an
argument, and `Rule.run` checks them in the order of first use.
-/

namespace Backtest

/-- The dates between which trades are simulated, both included; an end that is absent is open. -/
structure Window where
  start : Option Date
  stop : Option Date
  deriving DecidableEq

namespace Window

def everything : Window := ⟨none, none⟩

/-- Whether a date is not before the window. -/
def isReached (w : Window) (d : Date) : Bool :=
  match w.start with
  | some s => decide (s ≤ d)
  | none => true

/-- Whether a date is not behind the window. -/
def isOpen (w : Window) (d : Date) : Bool :=
  match w.stop with
  | some s => decide (d ≤ s)
  | none => true

/-- The part of a list of dated things that lies in the window: what stands from the first thing
inside on, up to the last thing that is not behind. Dates must ascend along the list. -/
def cut {β : Type} (w : Window) (date : β → Date) (xs : List β) : List β :=
  (xs.takeWhile fun x => w.isOpen (date x)).dropWhile fun x => !w.isReached (date x)

/-- The window in words. -/
def text (w : Window) : String :=
  let end? (d : Option Date) : String := match d with
    | some d => d.text
    | none => ".."
  "analysis window " ++ end? w.start ++ " to " ++ end? w.stop

end Window

/-- What a rule did over a history: the bars of the window, the signal on them, and the trades. -/
structure Run (α : Type) where
  ticker : String
  window : List (Bar α)
  signal : List Bool
  trades : List (Trade α)

/-- Why a rule cannot be run over a history. -/
inductive Run.Fault (α : Type) where
  | badHistory (fault : Bar.Fault)
  /-- There are fewer bars than the limiting operand needs. -/
  | shortHistory (limiting : Option (Operand α)) (required bars : Nat)
  | notFinite (fault : Indicator.NotFinite)
  /-- No bar lies in the window. -/
  | emptyWindow (window : Window)
  | badReturn (trade : BadReturn α)

namespace Rule

variable {α : Type} [Scalar α]

/-- Asks for enough bars to decide every condition at least once. -/
def checkHistory (r : Rule α) (bars : List (Bar α)) : Except (Run.Fault α) Unit :=
  if r.requiredBars ≤ bars.length then .ok ()
  else .error (.shortHistory (r.limitingCondition?.map (·.limitingOperand)) r.requiredBars
    bars.length)

/-- Checks series to be finite, in the order of the list. -/
def checkFinite : List (Indicator.Series α) → Except (Run.Fault α) Unit
  | [] => .ok ()
  | s :: rest =>
    match s.checkFinite with
    | .ok () => checkFinite rest
    | .error fault => .error (.notFinite fault)

/-- Runs a rule over a history, where the series are checked in an order of one's own. -/
def runInOrder (order : Indicator.Table α → List (Indicator.Series α)) (r : Rule α)
    (bars : List (Bar α)) (window : Window) : Except (Run.Fault α) (Run α) := do
  match Bar.check bars with
  | .error fault => throw (.badHistory fault)
  | .ok () => pure ()
  r.checkHistory bars
  let table := Indicator.table r.indicators bars
  checkFinite (order table)
  let marked := window.cut (·.1.date) (bars.zip (r.signal table bars))
  if marked.isEmpty then throw (.emptyWindow window)
  let inside := marked.map (·.1)
  let signal := marked.map (·.2)
  match simulate r.direction inside signal with
  | .error trade => throw (.badReturn trade)
  | .ok trades => return ⟨r.ticker, inside, signal, trades⟩

def run (r : Rule α) (bars : List (Bar α)) (window : Window) : Except (Run.Fault α) (Run α) :=
  r.runInOrder id bars window

end Rule

end Backtest
