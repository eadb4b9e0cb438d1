import Backtest.Bar
import Backtest.Indicator
import Backtest.Indicator.Average

/-!
# Ranges, strength and divergence

The indicators that are built on averages of something else than the closes themselves:

* `averageTrueRange`: the smoothed mean of the true ranges; the first bar has no bar before it and
  counts with its own range.
* `relativeStrength`: the share of gains in the smoothed gains and losses, from 0 to 100. Without
  losses it is 100, and 50 if there are no gains either.
* `divergence`: the distance of two exponential means of the closes, the exponential mean of that
  line, and the distance of the two.
* `bands`: the mean of the last closes with a band of deviations on either side.
-/

namespace Backtest.Indicator

variable {α : Type} [Scalar α]

def trueRanges : List (Bar α) → List α
  | [] => []
  | b :: rest => (b.high - b.low) :: List.zipWith (fun p c => c.trueRange p.close) (b :: rest) rest

def averageTrueRange (n : Nat) (bars : List (Bar α)) : List (Option α) :=
  wilderMean n (trueRanges bars)

/-- The change of each close from the one before. -/
def changes (closes : List α) : List α :=
  List.zipWith (fun p c => c - p) closes closes.tail

def gain (change : α) : α := Scalar.larger change ((0 : Nat) : α)

def loss (change : α) : α := Scalar.larger (-change) ((0 : Nat) : α)

/-- The strength of an average gain against an average loss. -/
def strength (averageGain averageLoss : α) : α :=
  let zero : α := (0 : Nat)
  let isZero (x : α) : Bool := decide (x ≤ zero) && decide (zero ≤ x)
  if isZero averageLoss then
    if isZero averageGain then (50 : Nat) else (100 : Nat)
  else
    Scalar.clamp zero (100 : Nat)
      ((100 : Nat) - (100 : Nat) / ((1 : Nat) + averageGain / averageLoss))

/-- The relative strength index of period `n`: one entry for each close, none for the first. -/
def relativeStrength (n : Nat) : List α → List (Option α)
  | [] => []
  | c :: rest =>
    let moves := changes (c :: rest)
    none :: List.zipWith (fun g l => do pure (strength (← g) (← l)))
      (wilderMean n (moves.map gain)) (wilderMean n (moves.map loss))

/-- The line of the divergence: the fast mean less the slow one, where both have a value. -/
def divergenceLine (fast slow : Nat) (closes : List α) : List α :=
  ((List.zip (exponentialMean fast closes) (exponentialMean slow closes)).drop
    (max slow fast - 1)).filterMap fun (f, s) => do pure ((← f) - (← s))

/-- The divergence: line, signal and their distance, one entry for each close. -/
def divergence (fast slow signal : Nat) (closes : List α) : List (Option (Reading α)) :=
  if fast = 0 ∨ slow = 0 ∨ signal = 0 ∨ closes.length < slow then closes.map fun _ => none
  else
    let line := divergenceLine fast slow closes
    let means := exponentialMean signal line
    List.replicate (min (max slow fast - 1) closes.length) none ++
      List.zipWith (fun l mean => mean.map fun s => .macd l s (l - s)) line means

/-- The last `n` numbers up to an index. -/
def windowAt (n index : Nat) (xs : List α) : List α := (xs.drop (index + 1 - n)).take n

/-- The mean of the squared distances from a middle. -/
def variance (n : Nat) (middle : α) (window : List α) : α :=
  Scalar.total (window.map fun x => (x - middle) * (x - middle)) / (n : α)

/-- The bands of period `n`, at a multiple in hundredths of the deviation. -/
def bands (n hundredths : Nat) (closes : List α) : List (Option (Reading α)) :=
  let multiple : α := (hundredths : α) / (100 : Nat)
  (rollingMean n closes).zipIdx.map fun (mean, i) => mean.map fun middle =>
    let width := multiple * Scalar.sqrt (variance n middle (windowAt n i closes))
    .bands (middle + width) middle (middle - width)

end Backtest.Indicator
