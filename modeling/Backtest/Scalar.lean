/-!
# The arithmetic of prices

Prices, indicators, trades and statistics are computed by the same formulas whatever the numbers
are. `Scalar α` lists the operations that these formulas use; the program runs them at `Float`,
and the same definitions can be read at an ordered field, where every operation is exact.

* `Scalar.larger`, `Scalar.smaller`: the extremes of two numbers; a number wins over a NaN.
* `Scalar.clamp`: a number moved into an interval.
* `Scalar.total`, `Scalar.mean`: sums taken from left to right.
-/

namespace Backtest

/-- The operations on numbers that the formulas use. Whole numbers enter through `NatCast`. -/
class Scalar (α : Type) extends Add α, Sub α, Mul α, Div α, Neg α, LT α, LE α, NatCast α where
  decLt : DecidableLT α
  decLe : DecidableLE α
  abs : α → α
  sqrt : α → α
  /-- False for infinities and for NaN. -/
  isFinite : α → Bool

namespace Scalar

variable {α : Type} [Scalar α]

instance : DecidableLT α := Scalar.decLt
instance : DecidableLE α := Scalar.decLe

/-- A whole number of either sign. -/
def ofInt (i : Int) : α :=
  if i < 0 then -(i.natAbs : α) else (i.natAbs : α)

/-- The larger of two numbers; of a number and a NaN, the number. -/
def larger (x y : α) : α :=
  if x < y then y else if x ≤ x then x else y

/-- The smaller of two numbers; of a number and a NaN, the number. -/
def smaller (x y : α) : α :=
  if y < x then y else if x ≤ x then x else y

/-- The number of the interval from `low` to `high` that is next to `x`. -/
def clamp (low high x : α) : α :=
  if x < low then low else if high < x then high else x

/-- The sum of a list from left to right, begun with its first element. -/
def total : List α → α
  | [] => (0 : Nat)
  | x :: xs => xs.foldl (· + ·) x

/-- The sum from left to right, begun with zero, over the length; zero for no values. -/
def mean (xs : List α) : α :=
  if xs.isEmpty then ((0 : Nat) : α) else xs.foldl (· + ·) ((0 : Nat) : α) / (xs.length : α)

end Scalar

/-- Double precision numbers: every operation rounds to nearest. -/
instance : Scalar Float where
  natCast n := (UInt64.ofNat n).toFloat
  decLt := inferInstance
  decLe := inferInstance
  abs := Float.abs
  sqrt := Float.sqrt
  isFinite := Float.isFinite

end Backtest
