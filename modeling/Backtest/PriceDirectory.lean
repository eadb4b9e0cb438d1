import Backtest.Bar.Csv
import Backtest.Files
import Backtest.Market

/-!
# Directories of prices

A price directory holds one sheet of prices for each ticker and timeframe: `T.csv` has the daily bars of
the ticker `T`, `T_1wk.csv` its weekly and `T_1mo.csv` its monthly ones.
-/

namespace Backtest

/-- A directory with sheets of prices. -/
structure PriceDirectory where
  path : String

namespace PriceDirectory

def suffix : String := ".csv"

/-- The name of the sheet of a ticker and timeframe. -/
def fileName (ticker : String) : Timeframe → String
  | .daily => ticker ++ suffix
  | timeframe => ticker ++ "_" ++ timeframe.text ++ suffix

def filePath (d : PriceDirectory) (ticker : String) (timeframe : Timeframe) : String :=
  Disk.join d.path (fileName ticker timeframe)

/-- The paths of all sheets that a ticker may have. -/
def sheets (d : PriceDirectory) (ticker : String) : List String :=
  [Timeframe.daily, .weekly, .monthly].map (d.filePath ticker)

/-- Whether there is a sheet for a ticker. -/
def resolves (d : PriceDirectory) (disk : Disk) (ticker : String) : Bool :=
  (d.sheets ticker).any disk.isFile

/-- The bars in the sheet of a ticker and timeframe. -/
def fetch (d : PriceDirectory) (disk : Disk) (ticker : String) (timeframe : Timeframe) :
    Except Failure (List (Bar Float)) :=
  let path := d.filePath ticker timeframe
  match disk.readText path with
  | .error fault =>
    .error (.unresolvable ticker ("failed to read " ++ path ++ ": " ++ fault.message))
  | .ok text =>
    match Bar.ofCsv text with
    | .ok bars => .ok bars
    | .error fault => .error (.unresolvable ticker fault.message)

/-- The ticker of a sheet with daily bars. -/
def tickerOf? (name : String) : Option String :=
  let cs := name.toList
  let stem := cs.take (cs.length - suffix.length)
  if cs.drop stem.length = suffix.toList ∧ stem ≠ [] ∧ '_' ∉ stem then some (String.ofList stem)
  else none

/-- The tickers with daily bars, in the order of their names. -/
def tickers (d : PriceDirectory) (disk : Disk) : Except Failure (List String) :=
  match disk.list d.path with
  | .error fault => .error (.io fault.message)
  | .ok names => .ok ((names.filterMap tickerOf?).mergeSort fun a b => decide (a ≤ b))

/-- A directory as a source of prices, over the files that can be reached. -/
def source (d : PriceDirectory) : PriceSource Disk where
  resolves disk ticker := d.resolves disk ticker
  fetch disk ticker timeframe := (d.fetch disk ticker timeframe, disk)

end PriceDirectory

end Backtest
