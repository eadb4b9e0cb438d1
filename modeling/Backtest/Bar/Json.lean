import Backtest.Bar
import Backtest.Date.Reader
import Backtest.Json

/-!
# Bars in JSON

A bar is an object with the members `date`, `open`, `high`, `low`, `close` and `volume`, other members
being passed over, or a list of these six things in this order.
-/

namespace Backtest

/-- The number that a value is. -/
def Json.number? : Json → Option Float
  | .num n => some n.toFloat
  | _ => none

/-- The date that a value spells; blanks may stand around its parts. -/
def Date.ofJson? : Json → Option Date
  | .str s => (Date.read .spaced s.toList).toOption
  | _ => none

namespace Bar

/-- The bar of a date and five numbers. -/
def ofValues? (date openPrice high low close volume : Json) : Option (Bar Float) := do
  return ⟨← Date.ofJson? date, ← openPrice.number?, ← high.number?, ← low.number?, ← close.number?,
    ← volume.number?⟩

def ofJson? (v : Json) : Option (Bar Float) :=
  match v with
  | .arr [date, openPrice, high, low, close, volume] =>
    ofValues? date openPrice high low close volume
  | .obj _ => do
    ofValues? (← v.get? "date") (← v.get? "open") (← v.get? "high") (← v.get? "low")
      (← v.get? "close") (← v.get? "volume")
  | _ => none

def toJson (b : Bar Float) : Json :=
  .obj [("date", .str b.date.text), ("open", .ofFloat b.openPrice), ("high", .ofFloat b.high),
    ("low", .ofFloat b.low), ("close", .ofFloat b.close), ("volume", .ofFloat b.volume)]

end Bar

end Backtest
