import Backtest.Scalar

/-!
# Averages along a list

Three ways to average a list of numbers while walking along it. Each gives one entry for each number:
none before `n` numbers are seen, then the average.

* `rollingMean`: the mean of the last `n` numbers, by a running sum that adds the newcomer and
  subtracts the number that leaves.
* `exponentialMean`: begun with the mean of the first `n` numbers; then the newcomer weighs
  `2 / (n + 1)` and the average so far the rest.
* `wilderMean`: begun with the mean of the first `n` numbers; then the newcomer weighs `1 / n`.
-/

namespace Backtest.Indicator

variable {α : Type} [Scalar α]

/-- The running sums behind `rollingMean`: `seen` numbers are summed up, and `leaving` is the list
of numbers from the oldest one in the sum on. -/
def rollingFrom (n : Nat) : Nat → α → List α → List α → List (Option α)
  | _, _, _, [] => []
  | seen, sum, leaving, x :: xs =>
    let added := sum + x
    let (current, leaving) := if n ≤ seen then (added - leaving.headD x, leaving.tail)
      else (added, leaving)
    (if n ≤ seen + 1 then some (current / (n : α)) else none) ::
      rollingFrom n (seen + 1) current leaving xs

def rollingMean (n : Nat) (xs : List α) : List (Option α) :=
  if n = 0 then xs.map fun _ => none else rollingFrom n 0 ((0 : Nat) : α) xs xs

/-- The values of a running average after each number. -/
def runningFrom (step : α → α → α) (average : α) : List α → List (Option α)
  | [] => []
  | x :: xs => some (step average x) :: runningFrom step (step average x) xs

/-- A running average that begins with the seed of the first `n` numbers. -/
def seeded (n : Nat) (seed : List α → α) (step : α → α → α) (xs : List α) : List (Option α) :=
  if n = 0 ∨ xs.length < n then xs.map fun _ => none
  else
    let first := seed (xs.take n)
    List.replicate (n - 1) none ++ some first :: runningFrom step first (xs.drop n)

def exponentialMean (n : Nat) (xs : List α) : List (Option α) :=
  let k : α := (2 : Nat) / ((n : α) + (1 : Nat))
  seeded n (fun first => first.foldl (· + ·) ((0 : Nat) : α) / (n : α))
    (fun average x => x * k + average * ((1 : Nat) - k)) xs

def wilderMean (n : Nat) (xs : List α) : List (Option α) :=
  seeded n (fun first => Scalar.total first / (n : α))
    (fun average x => (average * ((n : α) - (1 : Nat)) + x) / (n : α)) xs

end Backtest.Indicator
