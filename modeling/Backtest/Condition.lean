import Backtest.Indicator.Series

/-!
# Conditions

A `Condition` compares two operands with an operator. An operand is a `Source`, which has a value at
each bar, or a constant. `Condition.lookback` counts the bars that must come before the first bar at
which the condition can be decided; a crossing looks at the bar before as well.

The text of a source is its name as a strategy writes it: `PRICE`, `SMA(50)`, `MACD_SIGNAL`,
`BB_UPPER(20,2)`. The usual divergence goes without its parameters.
-/

namespace Backtest

/-- Which number of a reading an operand takes. -/
inductive Field where
  | value
  | macdLine
  | macdSignal
  | macdHistogram
  | bandUpper
  | bandMiddle
  | bandLower
  deriving DecidableEq

/-- The number that a field takes from a reading; none if the reading has no such number. -/
def Indicator.Reading.field? {α : Type} : Indicator.Reading α → Field → Option α
  | .single v, .value => some v
  | .macd line _ _, .macdLine => some line
  | .macd _ signal _, .macdSignal => some signal
  | .macd _ _ histogram, .macdHistogram => some histogram
  | .bands upper _ _, .bandUpper => some upper
  | .bands _ middle _, .bandMiddle => some middle
  | .bands _ _ lower, .bandLower => some lower
  | _, _ => none

/-- Something that has a value at each bar. -/
inductive Source where
  | price
  | volume
  | indicator (indicator : Indicator) (field : Field)
  deriving DecidableEq

/-- One side of a comparison. -/
inductive Operand (α : Type) where
  | source (s : Source)
  | constant (v : α)

/-- How two operands are compared. -/
inductive Operator where
  | less
  | greater
  | lessEqual
  | greaterEqual
  | equal
  /-- Above now, and not above at the bar before. -/
  | crossesAbove
  /-- Below now, and not below at the bar before. -/
  | crossesBelow
  deriving DecidableEq

structure Condition (α : Type) where
  left : Operand α
  operator : Operator
  right : Operand α

namespace Source

def indicator? : Source → Option Indicator
  | .indicator i _ => some i
  | _ => none

/-- The index of the first bar at which the source has a value. -/
def lookback (s : Source) : Nat :=
  match s.indicator? with
  | some i => i.lookback
  | none => 0

def macdName : Field → String
  | .macdSignal => "MACD_SIGNAL"
  | .macdHistogram => "MACD_HIST"
  | _ => "MACD"

def bandName : Field → String
  | .bandUpper => "BB_UPPER"
  | .bandLower => "BB_LOWER"
  | _ => "BB_MIDDLE"

def text : Source → String
  | .price => "PRICE"
  | .volume => "VOLUME"
  | .indicator (.macd fast slow signal) field =>
    if Indicator.macd fast slow signal = .defaultMacd then macdName field
    else Indicator.macdCall (macdName field) fast slow signal
  | .indicator (.bollinger period hundredths) field =>
    Indicator.bandCall (bandName field) period hundredths
  | .indicator i _ => i.text

end Source

namespace Operand

variable {α : Type}

def indicator? : Operand α → Option Indicator
  | .source s => s.indicator?
  | .constant _ => none

def lookback : Operand α → Nat
  | .source s => s.lookback
  | .constant _ => 0

def text : Operand Float → String
  | .source s => s.text
  | .constant v => Decimal.plainText v

end Operand

namespace Operator

def isCrossing : Operator → Bool
  | .crossesAbove | .crossesBelow => true
  | _ => false

def text : Operator → String
  | .less => "<"
  | .greater => ">"
  | .lessEqual => "<="
  | .greaterEqual => ">="
  | .equal => "=="
  | .crossesAbove => "crosses_above"
  | .crossesBelow => "crosses_below"

end Operator

namespace Condition

variable {α : Type}

/-- The index of the first bar at which the condition can be decided. -/
def lookback (c : Condition α) : Nat :=
  max c.left.lookback c.right.lookback + if c.operator.isCrossing then 1 else 0

/-- The number of bars that let the condition be decided at least once. -/
def requiredBars (c : Condition α) : Nat := c.lookback + 1

/-- The operand that has a value last; the left one if both begin together. -/
def limitingOperand (c : Condition α) : Operand α :=
  if c.left.lookback < c.right.lookback then c.right else c.left

/-- The indicators that the condition reads, left before right. -/
def indicators (c : Condition α) : List Indicator :=
  [c.left, c.right].filterMap Operand.indicator?

def text (c : Condition Float) : String :=
  c.left.text ++ " " ++ c.operator.text ++ " " ++ c.right.text

end Condition

end Backtest
