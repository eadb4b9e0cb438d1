import Backtest.Decimal.Shortest

/-!
# Writing numbers

`NumberFormat.write` writes the shortest digits of a double. Which exponents are written out by position,
whether a whole number keeps `.0`, and which of two equally near decimals is written, is decided by a
`NumberFormat`:

* `NumberFormat.plain`, for messages and operand texts: always by position and without `.0`, a tie
  going away from zero.
* `NumberFormat.json`, for JSON: by position while the leading digit stands between `10 ^ -5` and
  `10 ^ 15`, always with a point or an exponent, a tie going to the even digit.
-/

namespace Backtest.Decimal

/-- The decimal digits of a natural number. -/
def natText (n : Nat) : String := String.ofList (Nat.toDigits 10 n)

/-- The decisions of a number format. -/
structure NumberFormat where
  /-- The least and the greatest exponent of the leading digit that is written by position; none for
  a format without exponents. -/
  positional : Option (Int × Int)
  /-- A whole number is followed by `.0`. -/
  pointZero : Bool
  /-- What is written for a value halfway between two decimals of the fewest digits. -/
  tie : Tie
  deriving DecidableEq

/-- The format of messages. -/
def NumberFormat.plain : NumberFormat := ⟨none, false, .away⟩

/-- The format of numbers in JSON. -/
def NumberFormat.json : NumberFormat := ⟨some (-5, 15), true, .even⟩

/-- Digits with the point in its place: `exponent` zeros behind, or the point among the digits, or
zeros in front. -/
def positionalText (pointZero : Bool) (ds : List Char) (exponent : Int) : List Char :=
  if 0 ≤ exponent then
    ds ++ List.replicate exponent.toNat '0' ++ (if pointZero then ['.', '0'] else [])
  else
    let places := (-exponent).toNat
    if places < ds.length then
      ds.take (ds.length - places) ++ '.' :: ds.drop (ds.length - places)
    else
      '0' :: '.' :: List.replicate (places - ds.length) '0' ++ ds

/-- One digit, a point and the others if there are others, and an exponent with its sign. -/
def scientificText (ds : List Char) (leading : Int) : List Char :=
  ds.take 1 ++ (if ds.length ≤ 1 then [] else '.' :: ds.drop 1) ++
    'e' :: (if leading < 0 then '-' else '+') :: Nat.toDigits 10 leading.natAbs

/-- The text of a finite value. -/
def NumberFormat.writeFinite (f : NumberFormat) (x : Binary) : String :=
  let s := shortest f.tie x.mantissa x.exponent
  let ds := Nat.toDigits 10 s.digits
  let leading := s.exponent + (ds.length : Int) - 1
  let byPosition := match f.positional with
    | none => true
    | some (low, high) => x.mantissa = 0 || (low ≤ leading && leading ≤ high)
  let body := if byPosition then positionalText f.pointZero ds s.exponent
    else scientificText ds leading
  String.ofList (if x.negative then '-' :: body else body)

def NumberFormat.write (f : NumberFormat) (x : Float) : String :=
  match Value.ofFloat x with
  | .nan => "NaN"
  | .infinite negative => if negative then "-inf" else "inf"
  | .finite v => f.writeFinite v

/-- A number as messages write it. -/
def plainText (x : Float) : String := NumberFormat.plain.write x

end Backtest.Decimal
