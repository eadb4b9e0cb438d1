import Backtest.Condition
import Backtest.Json

/-!
# Trading rules

A `Rule` names a ticker, the direction of its trades, and conditions that must hold all together or
one at least. Its `summary` is the rule in JSON, in the spelling that strategies are read from.
-/

namespace Backtest

/-- The direction of trades: long ones win when the price rises, short ones when it falls. -/
inductive Direction where
  | long
  | short
  deriving DecidableEq

def Direction.text : Direction → String
  | .long => "long"
  | .short => "short"

/-- The action that opens trades of a direction. -/
def Direction.action : Direction → String
  | .long => "buy"
  | .short => "sell"

/-- How many of the conditions must hold. -/
inductive Combination where
  | all
  | any
  deriving DecidableEq

def Combination.text : Combination → String
  | .all => "all"
  | .any => "any"

/-- When to be in the market, with what, and in which direction. -/
structure Rule (α : Type) where
  ticker : String
  direction : Direction
  conditions : List (Condition α)
  combination : Combination

namespace Rule

variable {α : Type}

/-- The indicators that the rule reads, in the order of first use. -/
def indicators (r : Rule α) : List Indicator :=
  Indicator.distinct (r.conditions.flatMap (·.indicators))

/-- The condition that can be decided last; of several such, the last one in the list. -/
def limitingCondition? (r : Rule α) : Option (Condition α) :=
  r.conditions.foldl (fun best c =>
    match best with
    | none => some c
    | some b => if c.lookback < b.lookback then some b else some c) none

/-- The number of bars that let every condition be decided at least once. -/
def requiredBars (r : Rule α) : Nat :=
  match r.limitingCondition? with
  | some c => c.requiredBars
  | none => 1

/-- A condition in JSON. A constant is a number, any other right side a name. -/
def summaryOfCondition (c : Condition Float) : Json :=
  .obj [("indicator", .str c.left.text), ("operator", .str c.operator.text),
    ("value", match c.right with
      | .constant v => .ofFloat v
      | .source s => .str s.text)]

def summary (r : Rule Float) : Json :=
  .obj [("ticker", .str r.ticker), ("action", .str r.direction.action),
    ("conditions", .arr (r.conditions.map summaryOfCondition)),
    ("combination", .str r.combination.text)]

end Rule

end Backtest
