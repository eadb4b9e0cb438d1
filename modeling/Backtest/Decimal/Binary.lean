/-!
# Double precision numbers as exact values

A finite double is `± m · 2 ^ q` with natural `m < 2 ^ 53` and `-1074 ≤ q ≤ 971`. `Binary.decode`
reads `m` and `q` off the bit pattern, and `Binary.nearest` finds the double next to a quotient of
naturals, an exact tie going to the even pattern. Everything between the two is arithmetic of `Nat`
and `Int`, so that statements on decimal text speak of exact numbers.
-/

namespace Backtest.Decimal

/-- The exact value `± mantissa · 2 ^ exponent`. -/
structure Binary where
  negative : Bool
  mantissa : Nat
  exponent : Int
  deriving DecidableEq

/-- What a bit pattern stands for. -/
inductive Value where
  | nan
  | infinite (negative : Bool)
  | finite (value : Binary)
  deriving DecidableEq

/-- The bit `2 ^ 63`, which is set in the pattern of a negative double. -/
def signBit : Nat := 0x8000000000000000

/-- The unit `2 ^ 52` of the exponent field. It is the leading bit of a normal mantissa, too. -/
def fieldUnit : Nat := 0x10000000000000

/-- The greatest value of the exponent field, for infinity and for what is not a number. -/
def fieldMax : Nat := 0x7FF

/-- The value of a double. -/
def Value.ofFloat (x : Float) : Value :=
  let bits := x.toBits.toNat
  let negative := decide (signBit ≤ bits)
  let field : Nat := bits / fieldUnit % (fieldMax + 1)
  let fraction : Nat := bits % fieldUnit
  if field = fieldMax then
    if fraction = 0 then .infinite negative else .nan
  else if field = 0 then .finite ⟨negative, fraction, -1074⟩
  else .finite ⟨negative, fieldUnit + fraction, (field : Int) - 1075⟩

/-- `a / b` rounded to a natural, a tie going to the even one. -/
def roundDivEven (a b : Nat) : Nat :=
  let r := a % b
  if 2 * r < b then a / b
  else if b < 2 * r then a / b + 1
  else a / b + a / b % 2

/-- `a / b` rounded to a natural, a tie going up. -/
def roundDivUp (a b : Nat) : Nat :=
  (2 * a + b) / (2 * b)

/-- `num / (den · 2 ^ e)` as a quotient of naturals. -/
def scaled (num den : Nat) (e : Int) : Nat × Nat :=
  if 0 ≤ e then (num, den * Nat.pow 2 e.toNat) else (num * Nat.pow 2 (-e).toNat, den)

/-- The exponent `q` for which `num / den` has 53 binary digits in front of the point when it is
divided by `2 ^ q`; never below that of the subnormal numbers. -/
def unitExponent (num den : Nat) : Int :=
  let e : Int := (num.log2 : Int) - den.log2
  let (n, d) := scaled num den e
  max (if d ≤ n then e - 52 else e - 53) (-1074)

/-- The bit pattern, sign apart, of the double next to `num / den`. A mantissa that rounds up to
`2 ^ 53` carries into the exponent field by itself; beyond the largest double stands infinity. -/
def nearestBits (num den : Nat) : Nat :=
  if num = 0 then 0
  else
    let q := unitExponent num den
    let (n, d) := scaled num den q
    let bits := roundDivEven n d + (q + 1074).toNat * fieldUnit
    min bits (fieldMax * fieldUnit)

/-- The double next to `± num / den`. -/
def nearest (negative : Bool) (num den : Nat) : Float :=
  Float.ofBits (UInt64.ofNat (nearestBits num den + if negative then signBit else 0))

/-- The magnitude of a finite value rounded to a natural number, a half going away from zero. -/
def Binary.roundedMagnitude (x : Binary) : Nat :=
  if 0 ≤ x.exponent then x.mantissa * Nat.pow 2 x.exponent.toNat
  else roundDivUp x.mantissa (Nat.pow 2 (-x.exponent).toNat)

/-- The whole number next to `x`, a half going away from zero; the sign of zero stays. -/
def roundWhole (x : Float) : Float :=
  match Value.ofFloat x with
  | .finite v => nearest v.negative v.roundedMagnitude 1
  | _ => x

end Backtest.Decimal
