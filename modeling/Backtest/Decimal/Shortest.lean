import Backtest.Decimal.Binary

/-!
# The fewest digits that read back

A decimal with few digits stands for a double when that double is the one next to it. The decimals
that stand for `m · 2 ^ q` fill the interval between the midpoints to the neighbouring doubles, its
ends included exactly when `m` is even. `shortest` looks at the grids `d · 10 ^ k` from coarse to
fine and takes the first grid with a point in the interval; of two such points it takes the nearer,
and a `Tie` decides between two that are equally near. If any point of a grid lies in the interval,
so does one of the two grid points around the value, so only these two are tried.
-/

namespace Backtest.Decimal

/-- The decimal `digits · 10 ^ exponent`. -/
structure Digits where
  digits : Nat
  exponent : Int
  deriving DecidableEq

/-- Which of two points of a grid stands for a value halfway between them. -/
inductive Tie where
  /-- The point farther from zero. -/
  | away
  /-- The even multiple of the grid. -/
  | even
  deriving DecidableEq

/-- The choice between the multiples `below` and `below + 1` of a grid, for a value that is `down`
beyond the one and `up` short of the other. -/
def Tie.nearer (tie : Tie) (below down up : Nat) : Nat :=
  if down < up then below
  else if up < down then below + 1
  else match tie with
    | .away => below + 1
    | .even => below + below % 2

/-- The interval of values that round to a double, in units of `2 ^ scale`: a decimal reads back
when it lies between `low` and `high`, or on one of them if `closed`. -/
structure Interval where
  low : Nat
  value : Nat
  high : Nat
  closed : Bool
  scale : Int

/-- The interval of `m · 2 ^ q` for positive `m`. Below a power of two the doubles are twice as
dense, so the lower half is half as wide there. -/
def Interval.around (m : Nat) (q : Int) : Interval where
  low := if m = fieldUnit ∧ -1074 < q then 4 * m - 1 else 4 * m - 2
  value := 4 * m
  high := 4 * m + 2
  closed := m % 2 = 0
  scale := q - 2

/-- The factors `a`, `b` with `n · 2 ^ scale = d · 10 ^ k` exactly when `n · a = d · b`. -/
def gridFactors (scale k : Int) : Nat × Nat :=
  (Nat.pow 2 scale.toNat * Nat.pow 10 (-k).toNat,
    Nat.pow 2 (-scale).toNat * Nat.pow 10 k.toNat)

/-- The point of the grid `10 ^ k` that stands for the value of the interval, if there is one. -/
def Interval.pointOn (tie : Tie) (i : Interval) (k : Int) : Option Nat :=
  let (a, b) := gridFactors i.scale k
  let v := i.value * a
  let fits (d : Nat) : Bool :=
    if i.closed then i.low * a ≤ d * b && d * b ≤ i.high * a
    else i.low * a < d * b && d * b < i.high * a
  let below := v / b
  let above := below + 1
  let belowFits := below ≠ 0 && fits below
  let aboveFits := fits above
  if belowFits && aboveFits then some (tie.nearer below (v - below * b) (above * b - v))
  else if belowFits then some below
  else if aboveFits then some above
  else none

/-- The first grid with a point, among `n` grids from `10 ^ k` on downwards. -/
def Interval.firstPoint (tie : Tie) (i : Interval) : Nat → Int → Option Digits
  | 0, _ => none
  | n + 1, k =>
    match i.pointOn tie k with
    | some d => some ⟨d, k⟩
    | none => i.firstPoint tie n (k - 1)

/-- A power of ten that is larger than `m · 2 ^ q`, and not by much. -/
def upperGrid (m : Nat) (q : Int) : Int :=
  ((m.log2 : Int) + 1 + q) * 30103 / 100000 + 2

/-- The decimal of fewest digits that reads back as `m · 2 ^ q`. Seventeen digits always suffice,
and the search begins at most four grids above the first digit. -/
def shortest (tie : Tie) (m : Nat) (q : Int) : Digits :=
  if m = 0 then ⟨0, 0⟩
  else ((Interval.around m q).firstPoint tie 24 (upperGrid m q)).getD ⟨0, 0⟩

end Backtest.Decimal
