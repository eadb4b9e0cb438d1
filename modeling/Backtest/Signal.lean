import Backtest.Rule

/-!
# Signals

A signal says for each bar whether something holds there. `Condition.holdsAt` decides a condition at
one bar, and is false while a side has no value; `Rule.signal` combines the signals of all
conditions of a rule.
-/

namespace Backtest

variable {α : Type} [Scalar α]

/-- Two numbers closer than this count as equal. -/
def tolerance : α := (1 : Nat) / (1000000000 : Nat)

/-- The value of a source at a bar, with the series of the indicators from a table. -/
def Source.valueAt (table : Indicator.Table α) (bars : List (Bar α)) (index : Nat) :
    Source → Option α
  | .price => bars[index]?.map (·.close)
  | .volume => bars[index]?.map (·.volume)
  | .indicator i field => do
    let series ← table.find? i
    let point ← series.points[index]?
    (← point.reading).field? field

/-- The value of an operand at a bar. -/
def Operand.valueAt (table : Indicator.Table α) (bars : List (Bar α)) (index : Nat) :
    Operand α → Option α
  | .source s => s.valueAt table bars index
  | .constant v => some v

/-- The comparison of two numbers, for an operator that looks at one bar. -/
def Operator.compares : Operator → α → α → Bool
  | .less, l, r => decide (l < r)
  | .greater, l, r => decide (r < l)
  | .lessEqual, l, r => decide (l ≤ r)
  | .greaterEqual, l, r => decide (r ≤ l)
  | .equal, l, r => decide (Scalar.abs (l - r) < tolerance)
  | .crossesAbove, l, r => decide (r < l)
  | .crossesBelow, l, r => decide (l < r)

/-- What an operator asks of the bar before. -/
def Operator.comparesBefore : Operator → α → α → Bool
  | .crossesAbove, l, r => decide (l ≤ r)
  | .crossesBelow, l, r => decide (r ≤ l)
  | _, _, _ => true

namespace Condition

/-- Whether both sides have a value at a bar, and pass a test. -/
def testAt (c : Condition α) (table : Indicator.Table α) (bars : List (Bar α)) (index : Nat)
    (test : α → α → Bool) : Bool :=
  match c.left.valueAt table bars index, c.right.valueAt table bars index with
  | some l, some r => test l r
  | _, _ => false

/-- Whether a condition holds at a bar. -/
def holdsAt (c : Condition α) (table : Indicator.Table α) (bars : List (Bar α)) (index : Nat) :
    Bool :=
  c.testAt table bars index c.operator.compares &&
    (!c.operator.isCrossing ||
      match index with
      | 0 => false
      | before + 1 => c.testAt table bars before c.operator.comparesBefore)

def signal (c : Condition α) (table : Indicator.Table α) (bars : List (Bar α)) : List Bool :=
  (List.range bars.length).map (c.holdsAt table bars)

end Condition

/-- One bar of several signals at once. -/
def Combination.combine (how : Combination) (bits : List Bool) : Bool :=
  match how with
  | .all => bits.all id
  | .any => bits.any id

/-- Several signals in one, as long as the first. -/
def Combination.signal (how : Combination) : List (List Bool) → List Bool
  | [] => []
  | first :: rest =>
    first.zipIdx.map fun (bit, i) => how.combine (bit :: rest.map fun s => s[i]?.getD false)

def Rule.signal (r : Rule α) (table : Indicator.Table α) (bars : List (Bar α)) : List Bool :=
  r.combination.signal (r.conditions.map fun c => c.signal table bars)

end Backtest
