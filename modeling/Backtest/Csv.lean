import Backtest.Decimal.Format

/-!
# Comma-separated values

A text of comma-separated values is a list of records. A record ends at a line feed or a carriage
return, and empty lines are passed over. A field that starts with a double quote goes on to the next
double quote that does not have another one behind it; two of them stand for one. What follows a
closing quote is taken as it is.

`Csv.sheet` takes the first record as the header and asks every other one for as many fields.
-/

namespace Backtest.Csv

/-- A place in a text: how many bytes stand before it, and the number of its line. -/
structure Position where
  byte : Nat
  line : Nat
  deriving DecidableEq

def Position.start : Position := ⟨0, 1⟩

/-- The place behind a character. -/
def Position.after (p : Position) (c : Char) : Position :=
  ⟨p.byte + c.utf8Size, if c = '\n' then p.line + 1 else p.line⟩

/-- A record: the place at which the one before it ended, and its fields. -/
structure Record where
  place : Position
  fields : List String

/-- Where in a record a reader is. -/
inductive Mode where
  /-- Behind the end of a record. -/
  | between
  /-- In front of a field. -/
  | field
  /-- In a field without quotes, or behind its quotes. -/
  | plain
  /-- Between the quotes of a field. -/
  | quoted
  /-- Behind a double quote between the quotes of a field. -/
  | quote
  deriving DecidableEq

/-- A record as far as it is read. Its fields and the characters of the last one stand in reverse
order. -/
structure Draft where
  place : Position
  fields : List String
  last : List Char

namespace Draft

/-- A record of which nothing is read. -/
def fresh (place : Position) : Draft := ⟨place, [], []⟩

def push (d : Draft) (c : Char) : Draft := { d with last := c :: d.last }

def close (d : Draft) : Draft := ⟨d.place, String.ofList d.last.reverse :: d.fields, []⟩

/-- The record that ends here. -/
def record (d : Draft) : Record := ⟨d.place, d.close.fields.reverse⟩

end Draft

def isLineEnd (c : Char) : Bool := c = '\n' || c = '\r'

/-- The records of a text from a place in a record on. -/
def readFrom (mode : Mode) (here : Position) (d : Draft) : List Char → List Record
  | [] => if mode = .between then [] else [d.record]
  | c :: rest =>
    let next := here.after c
    if mode = .between ∧ isLineEnd c then readFrom .between next d rest
    else if mode = .quoted then
      if c = '"' then readFrom .quote next d rest else readFrom .quoted next (d.push c) rest
    else if mode = .quote ∧ c = '"' then readFrom .quoted next (d.push c) rest
    else if (mode = .between ∨ mode = .field) ∧ c = '"' then readFrom .quoted next d rest
    else if c = ',' then readFrom .field next d.close rest
    else if isLineEnd c then d.record :: readFrom .between next (.fresh next) rest
    else readFrom .plain next (d.push c) rest

/-- The records of a text. A byte order mark in front is passed over. -/
def records (cs : List Char) : List Record :=
  match cs with
  | '\uFEFF' :: rest => readFrom .between (Position.start.after '\uFEFF') (.fresh .start) rest
  | _ => readFrom .between .start (.fresh .start) cs

/-- A record with another number of fields than the header. -/
structure Uneven where
  /-- How many records stand before it. -/
  index : Nat
  place : Position
  found : Nat
  expected : Nat
  deriving DecidableEq

def Uneven.message (u : Uneven) : String :=
  "CSV error: record " ++ Decimal.natText u.index ++ " (line: " ++ Decimal.natText u.place.line ++
    ", byte: " ++ Decimal.natText u.place.byte ++ "): found record with " ++
    Decimal.natText u.found ++ " fields, but the previous record has " ++
    Decimal.natText u.expected ++ " fields"

/-- A header, and the rows below it. -/
structure Sheet where
  header : List String
  rows : List (Except Uneven (List String))

/-- A record as a row below a header. -/
def row (expected index : Nat) (r : Record) : Except Uneven (List String) :=
  if r.fields.length = expected then .ok r.fields
  else .error ⟨index, r.place, r.fields.length, expected⟩

/-- The sheet of a text. A text without records has an empty header. -/
def sheet (cs : List Char) : Sheet :=
  match records cs with
  | [] => ⟨[], []⟩
  | header :: rest => ⟨header.fields, rest.zipIdx.map fun (r, k) =>
      row header.fields.length (k + 1) r⟩

end Backtest.Csv
