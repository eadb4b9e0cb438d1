import Backtest.Rule
import Backtest.Rule.Token
import Backtest.Json.Printer

/-!
# Rules from candidates

A candidate is any JSON value that somebody offers as a strategy. `Rule.ofCandidate` makes a rule of
it or names the first `Defect`, in this order: the value itself, an error that it reports, ticker,
action, conditions one after the other, combination, and whether the ticker has prices. Within a
condition the order is: indicator, operator, value, the domain of a constant, comparison with
itself, the parameters of the left and then of the right side.

So a rule that is made here has a symbol for a ticker, at least one condition, a source on each left
side, and periods and constants within their bounds.
-/

namespace Backtest

/-- What is wrong with a condition of a candidate. -/
inductive ConditionDefect where
  | notObject
  | missing (member : String)
  | notString (member : String)
  | unknownIndicator (raw : String)
  | unknownOperator (raw : String)
  /-- A value that is no number and names no source, as it is shown. -/
  | unknownValue (shown : String)
  /-- A constant that the relative strength index never reaches. -/
  | outsideStrength (v : Float)
  /-- A constant that a source without negative values never reaches. -/
  | negative (left : Source) (v : Float)
  | selfComparison (left : Source)
  | badPeriod (s : Source) (period : Nat)
  | fastNotShorter (fast slow : Nat)
  | noMultiplier

/-- What is wrong with a candidate. -/
inductive Defect where
  | notObject
  /-- The candidate is the report of an error. -/
  | reported (text : String)
  | tickerMissing
  | tickerNotString
  | tickerEmpty
  | tickerInvalid (raw : String)
  | actionMissing
  | actionNotString
  | actionListNotString
  | actionUnknown (raw : String)
  | actionConflict
  | actionListEmpty
  | conditionsMissing
  | conditionsNotList
  | conditionsEmpty
  | condition (index : Nat) (defect : ConditionDefect)
  | combinationUnknown (raw : String)
  | combinationNotString
  /-- No prices are known for the ticker. -/
  | unresolved (ticker : String)

/-- The longest period that a strategy may use. -/
def maxPeriod : Nat := 500

/-- The greatest length of a ticker. -/
def maxTickerLength : Nat := 15

def ConditionDefect.message : ConditionDefect → String
  | .notObject => "not an object"
  | .missing member => member ++ " is missing"
  | .notString member => member ++ " is not a string"
  | .unknownIndicator raw => "unknown indicator token '" ++ raw ++ "'"
  | .unknownOperator raw => "unknown operator token '" ++ raw ++ "'"
  | .unknownValue shown => "value " ++ shown ++ " is neither a number nor a known indicator"
  | .outsideStrength v => "RSI threshold " ++ Decimal.plainText v ++ " is outside [0, 100]"
  | .negative left v => left.text ++ " threshold " ++ Decimal.plainText v ++ " is negative"
  | .selfComparison left => left.text ++ " is compared with itself"
  | .badPeriod s period =>
    s.text ++ " period " ++ Decimal.natText period ++ " is outside 1..=" ++ Decimal.natText maxPeriod
  | .fastNotShorter fast slow =>
    "MACD fast period " ++ Decimal.natText fast ++ " must be shorter than slow period " ++
      Decimal.natText slow
  | .noMultiplier => "Bollinger multiplier must be positive"

def Defect.message : Defect → String
  | .notObject => "strategy is not a JSON object"
  | .reported text => "upstream parser reported an error: " ++ text
  | .tickerMissing => "ticker is missing"
  | .tickerNotString => "ticker is not a string"
  | .tickerEmpty => "ticker is empty"
  | .tickerInvalid raw => "ticker '" ++ raw ++ "' is not a valid symbol"
  | .actionMissing => "action is missing"
  | .actionNotString => "action is not a string"
  | .actionListNotString => "action list contains a non-string"
  | .actionUnknown raw => "unknown action '" ++ raw ++ "' (expected buy or sell)"
  | .actionConflict => "strategy requests both buy and sell; only one action is supported"
  | .actionListEmpty => "action list is empty"
  | .conditionsMissing => "conditions are missing"
  | .conditionsNotList => "conditions is not a list"
  | .conditionsEmpty => "conditions list is empty"
  | .condition index defect => "condition " ++ Decimal.natText index ++ ": " ++ defect.message
  | .combinationUnknown raw => "unknown combination '" ++ raw ++ "' (expected all or any)"
  | .combinationNotString => "combination is not a string"
  | .unresolved ticker => "ticker " ++ ticker ++ " does not resolve to a price series"

namespace Candidate

abbrev Members := List (String × Json)

/-- A member that is there and is not null. -/
def present? (members : Members) (name : String) : Option Json :=
  match Json.find? members name with
  | some .null => none
  | other => other

/-! ## Ticker, action and combination -/

/-- A character of a symbol. -/
def isSymbolChar (c : Char) : Bool :=
  c.isAlphanum || c = '.' || c = '^' || c = '=' || c = '-'

/-- A text that may stand for a ticker. -/
def isSymbol (ticker : String) : Bool :=
  ticker.utf8ByteSize ≤ maxTickerLength && ticker.toList.all isSymbolChar

/-- The ticker: a symbol in upper case. -/
def ticker (members : Members) : Except Defect String :=
  match present? members "ticker" with
  | none => .error .tickerMissing
  | some (.str raw) =>
    let ticker := String.ofList (Text.upper (Text.trim raw.toList))
    if ticker.isEmpty then .error .tickerEmpty
    else if isSymbol ticker then .ok ticker
    else .error (.tickerInvalid raw)
  | some _ => .error .tickerNotString

/-- The direction that a word asks for. -/
def direction? (raw : String) : Option Direction :=
  match Text.folded raw with
  | "buy" | "long" => some .long
  | "sell" | "short" => some .short
  | _ => none

/-- The strings of a list of actions. -/
def strings : List Json → Except Defect (List String)
  | [] => .ok []
  | .str s :: rest => do return s :: (← strings rest)
  | _ :: _ => .error .actionListNotString

/-- The one direction that all words ask for. -/
def agreed (found : Option Direction) : List String → Except Defect Direction
  | [] => match found with
    | some d => .ok d
    | none => .error .actionListEmpty
  | raw :: rest =>
    match direction? raw with
    | none => .error (.actionUnknown raw)
    | some d => if found.any (· ≠ d) then .error .actionConflict else agreed (some d) rest

/-- The direction: one word, or a list of words that agree. -/
def direction (members : Members) : Except Defect Direction :=
  match present? members "action" with
  | none => .error .actionMissing
  | some (.str raw) => agreed none [raw]
  | some (.arr items) => do agreed none (← strings items)
  | some _ => .error .actionNotString

/-- The combination: all conditions unless another word is there. -/
def combination (members : Members) : Except Defect Combination :=
  match present? members "combination" with
  | none => .ok .all
  | some (.str raw) =>
    match Text.folded raw with
    | "all" | "and" => .ok .all
    | "any" | "or" => .ok .any
    | _ => .error (.combinationUnknown raw)
  | some _ => .error .combinationNotString

/-! ## Conditions -/

/-- A member of a condition that must be a string. -/
def stringMember (members : Members) (name : String) : Except ConditionDefect String :=
  match present? members name with
  | none => .error (.missing name)
  | some (.str raw) => .ok raw
  | some _ => .error (.notString name)

/-- The constant that a string spells: a finite number. -/
def constant? (raw : String) : Option Float :=
  match Decimal.readFloat (Text.trim raw.toList) with
  | .ok x => if x.isFinite then some x else none
  | .error _ => none

/-- The right side of a condition: a number, a string that spells one, or the name of a source. -/
def value (members : Members) : Except ConditionDefect (Operand Float) :=
  match present? members "value" with
  | none => .error (.missing "value")
  | some (.num n) => .ok (.constant n.toFloat)
  | some (.str raw) =>
    match constant? raw with
    | some x => .ok (.constant x)
    | none =>
      match Source.read? raw with
      | some s => .ok (.source s)
      | none => .error (.unknownValue ("'" ++ raw ++ "'"))
  | some other => .error (.unknownValue other.compact)

/-- A whole number as a double. -/
def number (n : Nat) : Float := (UInt64.ofNat n).toFloat

/-- Refuses a constant that the left side cannot reach. -/
def checkDomain (left : Source) : Operand Float → Except ConditionDefect Unit
  | .source _ => .ok ()
  | .constant v =>
    let negative := if v < number 0 then .error (.negative left v) else .ok ()
    match left.indicator? with
    | some (.rsi _) =>
      if !(number 0 ≤ v && v ≤ number 100) then .error (.outsideStrength v) else negative
    | some (.macd ..) => .ok ()
    | _ => negative

/-- Refuses a comparison of a source with itself. -/
def checkSelf (left : Source) : Operand Float → Except ConditionDefect Unit
  | .source right => if left = right then .error (.selfComparison left) else .ok ()
  | .constant _ => .ok ()

def periods : Indicator → List Nat
  | .sma n | .ema n | .rsi n | .atr n | .bollinger n _ => [n]
  | .macd fast slow signal => [fast, slow, signal]

/-- Refuses parameters out of their bounds. -/
def checkParameters (s : Source) : Except ConditionDefect Unit :=
  match s.indicator? with
  | none => .ok ()
  | some i =>
    match (periods i).find? (fun p => p = 0 || maxPeriod < p) with
    | some bad => .error (.badPeriod s bad)
    | none =>
      match i with
      | .macd fast slow _ => if slow ≤ fast then .error (.fastNotShorter fast slow) else .ok ()
      | .bollinger _ hundredths => if hundredths = 0 then .error .noMultiplier else .ok ()
      | _ => .ok ()

/-- Refuses parameters of a source out of their bounds; a constant has none. -/
def checkOperand : Operand Float → Except ConditionDefect Unit
  | .source s => checkParameters s
  | .constant _ => .ok ()

/-- The source that a condition names as its indicator. -/
def left (members : Members) : Except ConditionDefect Source := do
  let raw ← stringMember members "indicator"
  match Source.read? raw with
  | some s => return s
  | none => throw (.unknownIndicator raw)

def operator (members : Members) : Except ConditionDefect Operator := do
  let raw ← stringMember members "operator"
  match Operator.read? raw with
  | some o => return o
  | none => throw (.unknownOperator raw)

def condition : Json → Except ConditionDefect (Condition Float)
  | .obj members => do
    let left ← left members
    let operator ← operator members
    let right ← value members
    checkDomain left right
    checkSelf left right
    checkParameters left
    checkOperand right
    return ⟨.source left, operator, right⟩
  | _ => throw .notObject

/-- The conditions from an index on. -/
def conditionsFrom (index : Nat) : List Json → Except Defect (List (Condition Float))
  | [] => .ok []
  | item :: rest =>
    match condition item with
    | .error defect => .error (.condition index defect)
    | .ok c => do return c :: (← conditionsFrom (index + 1) rest)

/-- The conditions: a list with at least one. -/
def conditions (members : Members) : Except Defect (List (Condition Float)) :=
  match present? members "conditions" with
  | none => .error .conditionsMissing
  | some (.arr []) => .error .conditionsEmpty
  | some (.arr items) => conditionsFrom 0 items
  | some _ => .error .conditionsNotList

/-! ## The whole candidate -/

/-- Refuses a candidate that reports an error in place of a strategy. -/
def checkReport (members : Members) : Except Defect Unit :=
  match Json.find? members "error" with
  | none => .ok ()
  | some (.str text) => .error (.reported text)
  | some other => .error (.reported other.compact)

end Candidate

/-- The rule of a candidate, where `resolves` tells which tickers have prices. -/
def Rule.ofCandidate (resolves : String → Bool) : Json → Except Defect (Rule Float)
  | .obj members => do
    Candidate.checkReport members
    let ticker ← Candidate.ticker members
    let direction ← Candidate.direction members
    let conditions ← Candidate.conditions members
    let combination ← Candidate.combination members
    if resolves ticker then return ⟨ticker, direction, conditions, combination⟩
    else throw (.unresolved ticker)
  | _ => throw .notObject

end Backtest
