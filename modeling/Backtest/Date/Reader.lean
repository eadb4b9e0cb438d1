import Backtest.Date
import Backtest.Text

/-!
# Reading dates

A date is a year, a month and a day with hyphens between. The reader is lenient in three ways: blanks
may stand in front of each number, a month or a day may have one digit, and a year may have up to
four digits, or any number of them behind a sign. `Layout.spaced` also lets blanks stand in front of
the hyphens and at the end.
-/

namespace Backtest.Date

/-- What can be wrong with the text of a date. -/
inductive Fault where
  | outOfRange
  | invalid
  | tooShort
  | tooLong
  deriving DecidableEq

def Fault.message : Fault → String
  | .outOfRange => "input is out of range"
  | .invalid => "input contains invalid characters"
  | .tooShort => "premature end of input"
  | .tooLong => "trailing input"

/-- Where blanks may stand. -/
inductive Layout where
  /-- In front of numbers only. -/
  | close
  /-- In front of numbers and hyphens and at the end. -/
  | spaced
  deriving DecidableEq

/-- The blanks that the layout allows in front of a hyphen or at the end. -/
def Layout.skip (layout : Layout) (cs : List Char) : List Char :=
  match layout with
  | .close => cs
  | .spaced => Text.trimLeft cs

/-- The digits at the head of a text, at most `width` of them if a width is given; at least one. -/
def digits (width : Option Nat) (cs : List Char) : Except Fault (Nat × List Char) :=
  let ds := (match width with
    | some w => cs.take w
    | none => cs).takeWhile Char.isDigit
  match cs with
  | [] => .error .tooShort
  | _ :: _ =>
    if ds.isEmpty then .error .invalid
    else
      let n := Text.natOfDigits ds
      if 0x8000000000000000 ≤ n then .error .outOfRange else .ok (n, cs.drop ds.length)

/-- The year: up to four digits, or a sign and digits. -/
def year (cs : List Char) : Except Fault (Int × List Char) := do
  let (y, rest) ← match Text.trimLeft cs with
    | '-' :: cs => do
      let (n, rest) ← digits none cs
      pure (-(n : Int), rest)
    | '+' :: cs => do
      let (n, rest) ← digits none cs
      pure ((n : Int), rest)
    | cs => do
      let (n, rest) ← digits (some 4) cs
      pure ((n : Int), rest)
  if -0x80000000 ≤ y && y < 0x80000000 then pure (y, rest) else .error .outOfRange

/-- A number of one or two digits from 1 to a limit. -/
def part (limit : Nat) (cs : List Char) : Except Fault (Nat × List Char) := do
  let (n, rest) ← digits (some 2) (Text.trimLeft cs)
  if 1 ≤ n && n ≤ limit then pure (n, rest) else .error .outOfRange

/-- The hyphen between two numbers. -/
def hyphen : List Char → Except Fault (List Char)
  | [] => .error .tooShort
  | c :: cs => if c = '-' then .ok cs else .error .invalid

/-- The date that a text spells. -/
def read (layout : Layout) (cs : List Char) : Except Fault Date := do
  let (y, cs) ← year cs
  let cs ← hyphen (layout.skip cs)
  let (m, cs) ← part 12 cs
  let cs ← hyphen (layout.skip cs)
  let (d, cs) ← part 31 cs
  if !(layout.skip cs).isEmpty then .error .tooLong
  match ofCivil? ⟨y, m, d⟩ with
  | some date => .ok date
  | none => .error .outOfRange

end Backtest.Date
