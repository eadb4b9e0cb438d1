import Backtest.Scalar
import Backtest.Date
import Backtest.Decimal.Format

/-!
# Price bars

A `Bar` is what is known of one trading period: its date, the first, highest, lowest and last price,
and the volume. A price history is accepted by `Bar.check` when every field is finite and not
negative and the dates ascend strictly; otherwise the first bar that breaks a rule is named.
-/

namespace Backtest

/-- The prices and the volume of a trading period. -/
structure Bar (α : Type) where
  date : Date
  openPrice : α
  high : α
  low : α
  close : α
  volume : α

namespace Bar

/-- What is wrong with a price history. -/
inductive Fault where
  /-- The bar of this index has a field that is negative or not finite. -/
  | badField (index : Nat) (date : Date)
  /-- This date does not come after that of the bar before. -/
  | unordered (date previous : Date)
  deriving DecidableEq

def Fault.message : Fault → String
  | .badField index date =>
    "bar " ++ Decimal.natText index ++ " (" ++ date.text ++ ") has a non-finite or negative field"
  | .unordered date previous =>
    "bar dates not strictly ascending at " ++ date.text ++ " (after " ++ previous.text ++ ")"

variable {α : Type} [Scalar α]

/-- The largest of the bar's range and the distances of its ends from the close before. -/
def trueRange (b : Bar α) (previousClose : α) : α :=
  Scalar.larger
    (Scalar.larger (b.high - b.low) (Scalar.abs (b.high - previousClose)))
    (Scalar.abs (b.low - previousClose))

/-- A field that a price history may hold. -/
def isSound (x : α) : Bool := Scalar.isFinite x && decide (((0 : Nat) : α) ≤ x)

/-- Whether every field is finite and not negative. -/
def hasSoundFields (b : Bar α) : Bool :=
  isSound b.openPrice && isSound b.high && isSound b.low && isSound b.close && isSound b.volume

/-- The checks of the bars from an index on, where `previous` is the date before them. -/
def checkFrom (index : Nat) (previous : Option Date) : List (Bar α) → Except Fault Unit
  | [] => .ok ()
  | b :: rest =>
    if !b.hasSoundFields then .error (.badField index b.date)
    else match previous with
      | some p =>
        if b.date ≤ p then .error (.unordered b.date p) else checkFrom (index + 1) (some b.date) rest
      | none => checkFrom (index + 1) (some b.date) rest

/-- Accepts a price history, or names its first fault. -/
def check (bars : List (Bar α)) : Except Fault Unit := checkFrom 0 none bars

end Bar

end Backtest
