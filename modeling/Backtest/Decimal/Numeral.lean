import Backtest.Decimal.Binary
import Backtest.Text

/-!
# Reading numbers

`readFloat` reads the text of a number: an optional sign, then digits with at most one point among
or beside them and an optional exponent, or one of the words `inf`, `infinity` and `nan` in any
case. The result is the double next to the decimal that the text spells.
-/

namespace Backtest.Decimal

/-- What can be wrong with the text of a number. -/
inductive NumeralFault where
  | empty
  | malformed
  deriving DecidableEq

def NumeralFault.message : NumeralFault → String
  | .empty => "cannot parse float from empty string"
  | .malformed => "invalid float literal"

def infinity (negative : Bool) : Float := nearest negative (Nat.pow 10 310) 1

/-- The double next to `± m · 10 ^ e`. Beyond `10 ^ 310` there is only infinity and below
`10 ^ -330` only zero, so the powers stay small. -/
def ofDecimal (negative : Bool) (m : Nat) (e : Int) : Float :=
  let top := ((Nat.toDigits 10 m).length : Int) + e
  if m = 0 || top < -330 then nearest negative 0 1
  else if 310 < top then infinity negative
  else nearest negative (m * Nat.pow 10 e.toNat) (Nat.pow 10 (-e).toNat)

/-- A sign at the head of a text, and what follows. Without a sign the number is positive. -/
def takeSign : List Char → Bool × List Char
  | '-' :: rest => (true, rest)
  | '+' :: rest => (false, rest)
  | cs => (false, cs)

/-- The exponent that ends a numeral: nothing, or `e` with a whole number. -/
def exponent? : List Char → Option Int
  | [] => some 0
  | c :: cs =>
    if c = 'e' ∨ c = 'E' then
      let (negative, ds) := takeSign cs
      if ds.isEmpty || !ds.all Char.isDigit then none
      else
        let n : Int := Text.natOfDigits ds
        some (if negative then -n else n)
    else none

/-- A numeral without sign as `m · 10 ^ e`. -/
def numeral? (cs : List Char) : Option (Nat × Int) :=
  let whole := cs.takeWhile Char.isDigit
  let rest := cs.dropWhile Char.isDigit
  let (places, rest) := match rest with
    | '.' :: r => (r.takeWhile Char.isDigit, r.dropWhile Char.isDigit)
    | _ => ([], rest)
  if whole.isEmpty && places.isEmpty then none
  else (exponent? rest).map fun e => (Text.natOfDigits (whole ++ places), e - (places.length : Int))

def readFloat (cs : List Char) : Except NumeralFault Float :=
  if cs.isEmpty then .error .empty
  else
    let (negative, body) := takeSign cs
    let word := Text.lower body
    if word = "inf".toList || word = "infinity".toList then .ok (infinity negative)
    else if word = "nan".toList then
      .ok (Float.ofBits 0x7FF8000000000000)
    else match numeral? body with
      | some (m, e) => .ok (ofDecimal negative m e)
      | none => .error .malformed

end Backtest.Decimal
