import Backtest.Indicator.Oscillator

/-!
# Series of indicators

`Indicator.series` computes an indicator along the bars: one point for each bar, with the bar's date.
`Series.checkFinite` refuses a series with a point that holds a number that is not finite. A `Table`
holds one series for each indicator that a rule reads.
-/

namespace Backtest.Indicator

variable {α : Type} [Scalar α]

/-- What an indicator says at each bar. -/
def readings (i : Indicator) (bars : List (Bar α)) : List (Option (Reading α)) :=
  let closes := bars.map (·.close)
  match i with
  | .sma n => (rollingMean n closes).map (·.map .single)
  | .ema n => (exponentialMean n closes).map (·.map .single)
  | .rsi n => (relativeStrength n closes).map (·.map .single)
  | .atr n => (averageTrueRange n bars).map (·.map .single)
  | .macd fast slow signal => divergence fast slow signal closes
  | .bollinger n hundredths => bands n hundredths closes

def series (i : Indicator) (bars : List (Bar α)) : Series α where
  indicator := i
  points := List.zipWith (fun b r => ⟨b.date, r⟩) bars (i.readings bars)

/-- The index of the first point that has a value. -/
def Series.firstValid (s : Series α) : Option Nat :=
  s.points.findIdx? (·.reading.isSome)

/-- A series has a number that is not finite on this date. -/
structure NotFinite where
  indicator : Indicator
  date : Date
  deriving DecidableEq

def NotFinite.message (f : NotFinite) : String :=
  f.indicator.text ++ " produced a non-finite value on " ++ f.date.text

def Point.isFinite (p : Point α) : Bool :=
  match p.reading with
  | some r => r.components.all Scalar.isFinite
  | none => true

/-- Accepts a series of finite numbers, or names the date of the first other one. -/
def Series.checkFinite (s : Series α) : Except NotFinite Unit :=
  match s.points.find? (fun p => !p.isFinite) with
  | some p => .error ⟨s.indicator, p.date⟩
  | none => .ok ()

/-- The series of several indicators. -/
abbrev Table (α : Type) := List (Series α)

def Table.find? (t : Table α) (i : Indicator) : Option (Series α) :=
  List.find? (fun s => s.indicator = i) t

/-- A table with one more series, in the place of the one of the same indicator if there is one. -/
def Table.put (s : Series α) : Table α → Table α
  | [] => [s]
  | t :: rest => if t.indicator = s.indicator then s :: rest else t :: Table.put s rest

/-- A list without repetitions, in the order of first occurrences. -/
def distinct (is : List Indicator) : List Indicator :=
  is.foldl (fun seen i => if seen.contains i then seen else seen ++ [i]) []

/-- The series of each indicator of a list, each computed once. -/
def table (is : List Indicator) (bars : List (Bar α)) : Table α :=
  (distinct is).map (·.series bars)

end Backtest.Indicator
