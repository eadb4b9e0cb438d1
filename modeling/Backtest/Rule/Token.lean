import Backtest.Condition
import Backtest.Decimal.Numeral

/-!
# Names of sources and operators

Strategies name sources freely: letters of either case, blanks or hyphens for underscores, periods in
parentheses or right behind the name, and several names for one thing. `Source.read?` and
`Operator.read?` understand these names. What the program writes is one of them, so a source is read
back from its own text.
-/

namespace Backtest

namespace Token

/-- A blank or a hyphen becomes an underscore. -/
def underscored (cs : List Char) : List Char :=
  cs.map fun c => if c = ' ' ∨ c = '-' then '_' else c

/-- A name without underscores at its end. -/
def trimUnderscores (cs : List Char) : List Char :=
  (cs.reverse.dropWhile (· = '_')).reverse

/-- The name and the parameters of a token: parameters in parentheses that end the token, with commas
between, or digits behind the name, which are one parameter. -/
def split? (cs : List Char) : Option (List Char × List (List Char)) :=
  let beforeParen := cs.takeWhile (· ≠ '(')
  match cs.dropWhile (· ≠ '(') with
  | _ :: rest =>
    if rest.getLast? = some ')' then
      some (trimUnderscores beforeParen, (Text.splitOn ',' rest.dropLast).map Text.trim)
    else none
  | [] =>
    let name := trimUnderscores (cs.takeWhile fun c => !c.isDigit)
    let digits := cs.dropWhile fun c => !c.isDigit
    some (name, if digits.isEmpty then [] else [digits])

def periods? (parameters : List (List Char)) : Option (List Nat) :=
  parameters.mapM Text.natural?

/-- A multiplier in hundredths, a half going up; at most `2 ^ 32 - 1` hundredths. -/
def hundredths? (cs : List Char) : Option Nat :=
  match Decimal.readFloat cs with
  | .error _ => none
  | .ok x =>
    if !x.isFinite || x < (UInt64.ofNat 0).toFloat then none
    else match Decimal.Value.ofFloat (x * (UInt64.ofNat 100).toFloat) with
      | .finite v => some (min v.roundedMagnitude 0xFFFFFFFF)
      | _ => some 0xFFFFFFFF

/-- The period of an indicator that has a usual one. -/
def periodOrDefault? (parameters : List (List Char)) : Option Nat := do
  match ← periods? parameters with
  | [] => some Indicator.defaultPeriod
  | [n] => some n
  | _ => none

/-- The period of an indicator that has no usual one. -/
def singlePeriod? (parameters : List (List Char)) : Option Nat := do
  match ← periods? parameters with
  | [n] => some n
  | _ => none

/-- The divergence of three periods, or the usual one. -/
def macd? (parameters : List (List Char)) : Option Indicator := do
  match ← periods? parameters with
  | [] => some .defaultMacd
  | [fast, slow, signal] => some (.macd fast slow signal)
  | _ => none

/-- The bands of a period and a multiplier, either of which may be left to the usual one. -/
def bollinger? (parameters : List (List Char)) : Option Indicator :=
  match parameters with
  | [] => some (.bollinger Indicator.defaultBandPeriod Indicator.defaultHundredths)
  | [p] => do return .bollinger (← Text.natural? p) Indicator.defaultHundredths
  | [p, m] => do
    let hundredths ← hundredths? m
    return .bollinger (← Text.natural? p) hundredths
  | _ => none

/-- The indicator that a name and its parameters call for, with the field that the name means. -/
def indicator? (name : String) (parameters : List (List Char)) : Option Source :=
  let plain (i : Option Indicator) := i.map (Source.indicator · .value)
  let macdField (f : Field) := (macd? parameters).map (Source.indicator · f)
  let band (f : Field) := (bollinger? parameters).map (Source.indicator · f)
  match name with
  | "RSI" => plain ((periodOrDefault? parameters).map .rsi)
  | "ATR" => plain ((periodOrDefault? parameters).map .atr)
  | "SMA" | "MA" => plain ((singlePeriod? parameters).map .sma)
  | "EMA" => plain ((singlePeriod? parameters).map .ema)
  | "MACD" | "MACD_LINE" => macdField .macdLine
  | "MACD_SIGNAL" => macdField .macdSignal
  | "MACD_HIST" | "MACD_HISTOGRAM" => macdField .macdHistogram
  | "BB" | "BB_MIDDLE" | "BOLLINGER" => band .bandMiddle
  | "BB_UPPER" => band .bandUpper
  | "BB_LOWER" => band .bandLower
  | _ => none

end Token

def Source.read? (text : String) : Option Source :=
  let cs := Token.underscored (Text.upper (Text.trim text.toList))
  match String.ofList cs with
  | "PRICE" | "CLOSE" => some .price
  | "VOLUME" => some .volume
  | _ => do
    let (name, parameters) ← Token.split? cs
    Token.indicator? (String.ofList name) parameters

def Operator.read? (text : String) : Option Operator :=
  match String.ofList (Token.underscored (Text.lower (Text.trim text.toList))) with
  | "<" => some .less
  | ">" => some .greater
  | "<=" => some .lessEqual
  | ">=" => some .greaterEqual
  | "==" | "=" => some .equal
  | "crosses_above" | "cross_above" => some .crossesAbove
  | "crosses_below" | "cross_below" => some .crossesBelow
  | _ => none

end Backtest
