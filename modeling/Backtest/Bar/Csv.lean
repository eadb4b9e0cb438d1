import Backtest.Bar
import Backtest.Csv
import Backtest.Date.Reader
import Backtest.Decimal.Numeral

/-!
# Bars in comma-separated values

A sheet of prices has the columns `date`, `open`, `high`, `low`, `close` and `volume` in any order and
case, among others that are passed over. Each row is a bar; a row in which one of the five numbers is
empty, `null` or `nan` stands for a session without trading and is left out. The bars come out sorted by
date, those of one date in the order of the sheet.
-/

namespace Backtest.Bar

/-- The columns of a sheet of prices. -/
inductive Column where
  | date
  | openPrice
  | high
  | low
  | close
  | volume
  deriving DecidableEq

namespace Column

def text : Column → String
  | .date => "date"
  | .openPrice => "open"
  | .high => "high"
  | .low => "low"
  | .close => "close"
  | .volume => "volume"

def numbers : List Column := [.openPrice, .high, .low, .close, .volume]

/-- Where a column stands below a header: the first name that reads like it. -/
def index? (c : Column) (header : List String) : Option Nat :=
  header.findIdx? fun name => Text.folded name == c.text

end Column

/-- What can be wrong with a sheet of prices. Rows are numbered as lines, the header being the first. -/
inductive SheetFault where
  | noColumn (column : Column)
  | uneven (row : Csv.Uneven)
  | badDate (row : Nat) (text : String) (fault : Date.Fault)
  | badNumber (row : Nat) (column : Column) (text : String) (fault : Decimal.NumeralFault)
  deriving DecidableEq

def SheetFault.message : SheetFault → String
  | .noColumn column => "missing " ++ column.text ++ " column"
  | .uneven row => "CSV parse error: " ++ row.message
  | .badDate row text fault =>
    "invalid date '" ++ text ++ "' on row " ++ Decimal.natText row ++ ": " ++ fault.message
  | .badNumber row column text fault =>
    "invalid " ++ column.text ++ " value '" ++ text ++ "' on row " ++ Decimal.natText row ++ ": " ++
      fault.message

/-- Where the columns of a sheet stand. -/
structure Columns where
  date : Nat
  openPrice : Nat
  high : Nat
  low : Nat
  close : Nat
  volume : Nat
  deriving DecidableEq

namespace Columns

/-- The columns below a header, or the first one that it lacks. -/
def ofHeader (header : List String) : Except SheetFault Columns := do
  let find (c : Column) : Except SheetFault Nat :=
    match c.index? header with
    | some k => .ok k
    | none => .error (.noColumn c)
  return ⟨← find .date, ← find .openPrice, ← find .high, ← find .low, ← find .close,
    ← find .volume⟩

def index (l : Columns) : Column → Nat
  | .date => l.date
  | .openPrice => l.openPrice
  | .high => l.high
  | .low => l.low
  | .close => l.close
  | .volume => l.volume

/-- The text of a row in a column, without blanks at its ends. -/
def field (l : Columns) (fields : List String) (c : Column) : String :=
  Text.trimmed (fields[l.index c]?.getD "")

end Columns

/-- Whether a field says that there is no number. -/
def isMissing (field : String) : Bool :=
  let word := Text.folded field
  word == "" || word == "null" || word == "nan"

/-- How many bytes of a date are read; a time of day may follow. -/
def dateWidth : Nat := 10

/-- The first characters of a text that fill a width in bytes, or none if a character stands across
its end or the text is shorter. -/
def takeBytes? : List Char → Nat → Option (List Char)
  | _, 0 => some []
  | [], _ + 1 => none
  | c :: cs, n + 1 =>
    if c.utf8Size ≤ n + 1 then (takeBytes? cs (n + 1 - c.utf8Size)).map (c :: ·) else none

def readDate (field : String) : Except Date.Fault Date :=
  Date.read .close ((takeBytes? field.toList dateWidth).getD field.toList)

/-- The bar of a row, or none if it is left out. -/
def ofFields? (l : Columns) (row : Nat) (fields : List String) :
    Except SheetFault (Option (Bar Float)) := do
  if Column.numbers.any fun c => isMissing (l.field fields c) then return none
  let date ← match readDate (l.field fields .date) with
    | .ok d => pure d
    | .error fault => throw (.badDate row (l.field fields .date) fault)
  let number (c : Column) : Except SheetFault Float :=
    match Decimal.readFloat (l.field fields c).toList with
    | .ok x => .ok x
    | .error fault => .error (.badNumber row c (l.field fields c) fault)
  return some ⟨date, ← number .openPrice, ← number .high, ← number .low, ← number .close,
    ← number .volume⟩

/-- The bars of rows, of which the first has the given number. -/
def ofRows (l : Columns) (row : Nat) :
    List (Except Csv.Uneven (List String)) → Except SheetFault (List (Bar Float))
  | [] => .ok []
  | .error uneven :: _ => .error (.uneven uneven)
  | .ok fields :: rest => do
    match ← ofFields? l row fields with
    | none => ofRows l (row + 1) rest
    | some bar => return bar :: (← ofRows l (row + 1) rest)

/-- The bars of a sheet. -/
def ofSheet (sheet : Csv.Sheet) : Except SheetFault (List (Bar Float)) := do
  let columns ← Columns.ofHeader sheet.header
  let bars ← ofRows columns 2 sheet.rows
  return bars.mergeSort fun a b => decide (a.date ≤ b.date)

def ofCsv (text : String) : Except SheetFault (List (Bar Float)) :=
  ofSheet (Csv.sheet text.toList)

end Backtest.Bar
