import Backtest.Decimal.Format
import Backtest.Date

/-!
# Indicators

An `Indicator` is a recipe for a series of values along the bars; what it computes is defined in the
modules below this one. Here stand its parameters, its name, and its `lookback`: how many bars must
come before the first bar with a value. Periods are naturals below `2 ^ 64` wherever they are read
from text, and multipliers are counted in hundredths below `2 ^ 32`.
-/

namespace Backtest

/-- A recipe for a series of values along the bars. -/
inductive Indicator where
  /-- The mean of the last closes. -/
  | sma (period : Nat)
  /-- The exponential mean of the closes. -/
  | ema (period : Nat)
  /-- The relative strength index of the closes. -/
  | rsi (period : Nat)
  /-- The average true range. -/
  | atr (period : Nat)
  /-- The distance of two exponential means, and its own exponential mean. -/
  | macd (fast slow signal : Nat)
  /-- Bands around the mean of the last closes, at a multiple of their deviation. -/
  | bollinger (period hundredths : Nat)
  deriving DecidableEq

namespace Indicator

/-- The moving average convergence divergence of everyday use. -/
def defaultMacd : Indicator := .macd 12 26 9

/-- The period of the relative strength index and of the average true range if none is named. -/
def defaultPeriod : Nat := 14

/-- The period of the bands if none is named. -/
def defaultBandPeriod : Nat := 20

/-- The multiplier of the bands if none is named: two deviations. -/
def defaultHundredths : Nat := 200

/-- The index of the first bar that has a value. -/
def lookback : Indicator → Nat
  | .sma n | .ema n | .atr n | .bollinger n _ => n - 1
  | .rsi n => n
  | .macd _ slow signal => (slow - 1) + (signal - 1)

/-- The number of bars that give at least one value. -/
def requiredBars (i : Indicator) : Nat := i.lookback + 1

/-- A name and parameters in parentheses. -/
def call (name : String) (parameters : List String) : String :=
  name ++ "(" ++ ",".intercalate parameters ++ ")"

/-- A number of hundredths as a decimal without needless zeros. -/
def hundredthsText (n : Nat) : String :=
  let whole := Decimal.natText (n / 100)
  let tenths := Decimal.natText (n / 10 % 10)
  if n % 100 = 0 then whole
  else if n % 10 = 0 then whole ++ "." ++ tenths
  else whole ++ "." ++ tenths ++ Decimal.natText (n % 10)

def macdCall (name : String) (fast slow signal : Nat) : String :=
  call name [Decimal.natText fast, Decimal.natText slow, Decimal.natText signal]

def bandCall (name : String) (period hundredths : Nat) : String :=
  call name [Decimal.natText period, hundredthsText hundredths]

def text : Indicator → String
  | .sma n => call "SMA" [Decimal.natText n]
  | .ema n => call "EMA" [Decimal.natText n]
  | .rsi n => call "RSI" [Decimal.natText n]
  | .atr n => call "ATR" [Decimal.natText n]
  | .macd fast slow signal => macdCall "MACD" fast slow signal
  | .bollinger period hundredths => bandCall "BB" period hundredths

/-- What an indicator says at one bar. -/
inductive Reading (α : Type) where
  | single (value : α)
  | macd (line signal histogram : α)
  | bands (upper middle lower : α)

def Reading.components {α : Type} : Reading α → List α
  | .single v => [v]
  | .macd line signal histogram => [line, signal, histogram]
  | .bands upper middle lower => [upper, middle, lower]

/-- One bar of a series: its date, and what the indicator says there once it has a value. -/
structure Point (α : Type) where
  date : Date
  reading : Option (Reading α)

/-- The values of an indicator along the bars. -/
structure Series (α : Type) where
  indicator : Indicator
  points : List (Point α)

end Indicator

end Backtest
