import Backtest.Json
import Backtest.Decimal.Binary
import Backtest.Decimal.Format
import Backtest.Text.Encoding

/-!
# Reading JSON

`Json.read` reads one value from bytes. A text that is no JSON is refused with a cause and the place
where reading stopped: the line, and the number of bytes read in it.

* Nesting is limited: the value inside `nestingLimit - 1` brackets is the innermost one allowed, so
  the reader recurs on the levels that are left.
* A number is taken as its leading digits, as many as fit in 64 bits, times one power of ten. A
  whole number that fits in 64 bits stays whole.
* The place of bytes in a string that are no text is counted back from the end of the string, an
  escape in between counting as the bytes that it stands for.
* Members of an object are sorted by name, and of two members of one name the later counts.
-/

namespace Backtest.Json

/-- Why a text is no JSON. -/
inductive Cause where
  | endInList
  | endInObject
  | endInString
  | endInValue
  | expectedColon
  | expectedListEnd
  | expectedObjectEnd
  | expectedWord
  | expectedValue
  | invalidEscape
  | invalidNumber
  | numberOutOfRange
  | invalidCodePoint
  | controlCharacter
  | keyNotString
  | loneSurrogate
  | trailingComma
  | trailingCharacters
  | unexpectedEndOfEscape
  | nestingTooDeep
  deriving DecidableEq

def Cause.message : Cause → String
  | .endInList => "EOF while parsing a list"
  | .endInObject => "EOF while parsing an object"
  | .endInString => "EOF while parsing a string"
  | .endInValue => "EOF while parsing a value"
  | .expectedColon => "expected `:`"
  | .expectedListEnd => "expected `,` or `]`"
  | .expectedObjectEnd => "expected `,` or `\x7d`"
  | .expectedWord => "expected ident"
  | .expectedValue => "expected value"
  | .invalidEscape => "invalid escape"
  | .invalidNumber => "invalid number"
  | .numberOutOfRange => "number out of range"
  | .invalidCodePoint => "invalid unicode code point"
  | .controlCharacter => "control character (\\u0000-\\u001F) found while parsing a string"
  | .keyNotString => "key must be a string"
  | .loneSurrogate => "lone leading surrogate in hex escape"
  | .trailingComma => "trailing comma"
  | .trailingCharacters => "trailing characters"
  | .unexpectedEndOfEscape => "unexpected end of hex escape"
  | .nestingTooDeep => "recursion limit exceeded"

/-- A refused text: the cause, and where reading stopped. -/
structure Fault where
  cause : Cause
  line : Nat
  column : Nat
  deriving DecidableEq

def Fault.message (f : Fault) : String :=
  f.cause.message ++ " at line " ++ Decimal.natText f.line ++ " column " ++ Decimal.natText f.column

/-- A cause, and the number of bytes that were left when it was found. -/
structure Stop where
  cause : Cause
  left : Nat

abbrev Bytes := List UInt8

/-- A value and the bytes behind it, or why reading stopped. -/
abbrev ReadStep := Except Stop (Json × Bytes)

/-- Stops in front of the bytes that are left. -/
def stop {α : Type} (cause : Cause) (bs : List UInt8) : Except Stop α :=
  .error ⟨cause, bs.length⟩

/-- Stops with the next byte counted as read. -/
def stopPast {α : Type} (cause : Cause) (bs : List UInt8) : Except Stop α :=
  stop cause bs.tail

def byte (c : Char) : UInt8 := c.toNat.toUInt8

/-- Skips blanks, tabs and ends of lines. -/
def skipBlanks (bs : List UInt8) : List UInt8 :=
  bs.dropWhile fun b => b = 0x20 || b = 0x0A || b = 0x09 || b = 0x0D

def isDigit (b : UInt8) : Bool := 0x30 ≤ b && b ≤ 0x39

def digit (b : UInt8) : Nat := b.toNat - 0x30

/-! ## Words and numbers -/

/-- The remaining letters of `null`, `true` or `false`. -/
def word (value : Json) : List UInt8 → List UInt8 → ReadStep
  | [], bs => .ok (value, bs)
  | _ :: _, [] => stop .endInValue []
  | w :: ws, b :: bs => if b = w then word value ws bs else stop .expectedWord bs

/-- The digits of a numeral as far as the value fits in 64 bits, and what is left. -/
def fittingDigits (n : Nat) : List UInt8 → Nat × List UInt8
  | [] => (n, [])
  | b :: bs =>
    if isDigit b && 10 * n + digit b < 0x10000000000000000 then fittingDigits (10 * n + digit b) bs
    else (n, b :: bs)

/-- The double next to `10 ^ e`. -/
def tenPower (e : Nat) : Float := Decimal.nearest false (Nat.pow 10 e) 1

def zero : Float := (UInt64.ofNat 0).toFloat

/-- Negation, for a number with a minus sign. -/
def signed (negative : Bool) (x : Float) : Float := if negative then -x else x

/-- A significand over a power of ten: one rounded division for each `308` places begun. After four
divisions by `10 ^ 308` nothing but zero is left. -/
def divideDown : Nat → Float → Nat → Float
  | 0, f, _ => f
  | rounds + 1, f, places =>
    if places ≤ 308 then f / tenPower places
    else divideDown rounds (f / tenPower 308) (places - 308)

/-- A significand times a power of ten, unless the product is beyond the doubles. -/
def scale (f : Float) (e : Int) : Option Float :=
  if e < 0 then some (divideDown 4 f (-e).toNat)
  else if e ≤ 308 then
    let x := f * tenPower e.toNat
    if x.isFinite then some x else none
  else if f == zero then some f
  else none

/-- A number from its significand and exponent. -/
def realNumber (negative : Bool) (n : Nat) (e : Int) (bs : List UInt8) : ReadStep :=
  match scale (UInt64.ofNat n).toFloat e with
  | some x => .ok (ofFloat (signed negative x), bs)
  | none => stop .numberOutOfRange bs

/-- The sign of an exponent: absent, plus or minus. -/
def exponentSign : List UInt8 → Bool × List UInt8
  | [] => (false, [])
  | b :: bs =>
    if b = byte '-' then (true, bs) else if b = byte '+' then (false, bs) else (false, b :: bs)

/-- The digits of an exponent as far as the value fits in 32 bits with a sign. The other result is
the bytes behind the digit that does not fit, if there is one. -/
def exponentDigits (n : Nat) : List UInt8 → Nat × List UInt8 × Bool
  | [] => (n, [], true)
  | b :: bs =>
    if isDigit b then
      if 10 * n + digit b < 0x80000000 then exponentDigits (10 * n + digit b) bs else (n, bs, false)
    else (n, b :: bs, true)

/-- The exponent behind the letter `e`, for a significand with its own exponent. -/
def exponentPart (negative : Bool) (n : Nat) (start : Int) (bs : List UInt8) : ReadStep :=
  let (minus, bs) := exponentSign bs
  match bs with
  | [] => stop .endInValue []
  | b :: rest =>
    if isDigit b then
      match exponentDigits (digit b) rest with
      | (e, rest, true) =>
        realNumber negative n (if minus then start - (e : Int) else start + (e : Int)) rest
      | (_, rest, false) =>
        if n ≠ 0 && !minus then stop .numberOutOfRange rest
        else .ok (ofFloat (signed negative zero), rest.dropWhile isDigit)
    else stop .invalidNumber rest

/-- What follows a significand: an exponent, or the end of the number. -/
def numberEnd (negative : Bool) (n : Nat) (e : Int) : List UInt8 → ReadStep
  | [] => realNumber negative n e []
  | b :: bs =>
    if b = byte 'e' ∨ b = byte 'E' then exponentPart negative n e bs
    else realNumber negative n e (b :: bs)

/-- The places behind the point. Places that do not fit into the significand are passed over. -/
def fraction (negative : Bool) (n : Nat) (e : Int) (bs : List UInt8) : ReadStep :=
  let (m, rest) := fittingDigits n bs
  let places := bs.length - rest.length
  match rest with
  | [] => if places = 0 then stop .endInValue [] else numberEnd negative m (e - places) []
  | b :: _ =>
    if isDigit b then numberEnd negative m (e - places) (rest.dropWhile isDigit)
    else if places = 0 then stopPast .invalidNumber rest
    else numberEnd negative m (e - places) rest

/-- What follows the whole part of a number whose digits all fit. -/
def wholeEnd (negative : Bool) (n : Nat) (bs : List UInt8) : ReadStep :=
  match bs with
  | [] => .ok (whole, [])
  | b :: rest =>
    if b = byte '.' then fraction negative n 0 rest
    else if b = byte 'e' ∨ b = byte 'E' then exponentPart negative n 0 rest
    else .ok (whole, bs)
where
  /-- The number itself: minus zero and what is below `-2 ^ 63` are not whole. -/
  whole : Json :=
    if !negative then ofNat n
    else if n = 0 ∨ 0x8000000000000000 < n then ofFloat (-(UInt64.ofNat n).toFloat)
    else .num (.whole (-(n : Int)))

/-- What follows a whole part of which some digits did not fit. -/
def longEnd (negative : Bool) (n : Nat) (bs : List UInt8) : ReadStep :=
  let rest := bs.dropWhile isDigit
  let e : Int := bs.length - rest.length
  match rest with
  | [] => realNumber negative n e []
  | b :: r => if b = byte '.' then fraction negative n e r else numberEnd negative n e rest

/-- A number behind its sign. A zero in front of another digit is refused. -/
def number (negative : Bool) : List UInt8 → ReadStep
  | [] => stop .endInValue []
  | b :: bs =>
    if b = byte '0' then
      match bs with
      | [] => wholeEnd negative 0 []
      | c :: _ => if isDigit c then stopPast .invalidNumber bs else wholeEnd negative 0 bs
    else if isDigit b then
      let (n, rest) := fittingDigits (digit b) bs
      match rest with
      | [] => wholeEnd negative n []
      | c :: _ => if isDigit c then longEnd negative n rest else wholeEnd negative n rest
    else stop .invalidNumber bs

/-! ## Strings -/

/-- Where the reader is inside a string. -/
inductive Within where
  /-- Between characters. -/
  | text
  /-- Behind a backslash. -/
  | escape
  /-- Inside `\uXXXX`, with the digits so far; `lead` is a first surrogate that waits. -/
  | code (lead : Option Nat) (digits : List UInt8)
  /-- Behind a first surrogate, in front of the backslash of the second. -/
  | between (lead : Nat)
  /-- Behind that backslash. -/
  | second (lead : Nat)

def hexValue? (b : UInt8) : Option Nat :=
  if isDigit b then some (digit b)
  else if 0x61 ≤ b && b ≤ 0x66 then some (b.toNat - 0x61 + 10)
  else if 0x41 ≤ b && b ≤ 0x46 then some (b.toNat - 0x41 + 10)
  else none

def hexNumber? (ds : List UInt8) : Option Nat :=
  ds.foldl (fun n d => n.bind fun n => (hexValue? d).map (16 * n + ·)) (some 0)

/-- The byte that a one letter escape stands for. -/
def escaped? (b : UInt8) : Option UInt8 :=
  if b = byte '"' ∨ b = byte '\\' ∨ b = byte '/' then some b
  else if b = byte 'b' then some 8
  else if b = byte 'f' then some 12
  else if b = byte 'n' then some 10
  else if b = byte 'r' then some 13
  else if b = byte 't' then some 9
  else none

/-- The bytes of a character, last first. -/
def reversedBytes (n : Nat) : List UInt8 :=
  (String.singleton (Char.ofNat n)).toUTF8.toList.reverse

/-- What the four digits of `\uXXXX` mean: a character, or the first half of one. -/
def codeUnit (lead : Option Nat) (n : Nat) : Except Cause (Within × List UInt8) :=
  match lead with
  | none =>
    if 0xDC00 ≤ n && n ≤ 0xDFFF then .error .loneSurrogate
    else if 0xD800 ≤ n && n ≤ 0xDBFF then .ok (.between n, [])
    else .ok (.text, reversedBytes n)
  | some high =>
    if 0xDC00 ≤ n && n ≤ 0xDFFF then
      .ok (.text, reversedBytes ((high - 0xD800) * 0x400 + (n - 0xDC00) + 0x10000))
    else .error .loneSurrogate

/-- The bytes of a string up to its closing quote; `acc` holds those that are read, last first. -/
def string (within : Within) (acc : List UInt8) : List UInt8 → Except Stop (String × Bytes)
  | [] => stop .endInString []
  | b :: bs =>
    match within with
    | .text =>
      if b = byte '"' then
        let bytes := acc.reverse.toByteArray
        match String.fromUTF8? bytes with
        | some s => .ok (s, bs)
        | none => .error ⟨.invalidCodePoint, bs.length + (bytes.size - Text.validLength bytes)⟩
      else if b = byte '\\' then string .escape acc bs
      else if b < 0x20 then stop .controlCharacter bs
      else string .text (b :: acc) bs
    | .escape =>
      if b = byte 'u' then string (.code none []) acc bs
      else match escaped? b with
        | some c => string .text (c :: acc) bs
        | none => stop .invalidEscape bs
    | .code lead digits =>
      if digits.length < 3 then string (.code lead (digits ++ [b])) acc bs
      else match hexNumber? (digits ++ [b]) with
        | none => stop .invalidEscape bs
        | some n =>
          match codeUnit lead n with
          | .ok (next, more) => string next (more ++ acc) bs
          | .error cause => stop cause bs
    | .between lead =>
      if b = byte '\\' then string (.second lead) acc bs else stop .unexpectedEndOfEscape bs
    | .second lead =>
      if b = byte 'u' then string (.code (some lead) []) acc bs
      else stop .unexpectedEndOfEscape bs

/-! ## Lists, objects and values -/

/-- The items that follow the first one, up to the closing bracket. `fuel` bounds their number; each
takes at least one byte. -/
def items (value : Bytes → ReadStep) : Nat → List Json → List UInt8 → ReadStep
  | 0, _, bs => stop .endInList bs
  | fuel + 1, acc, bs =>
    match skipBlanks bs with
    | [] => stop .endInList []
    | b :: bs =>
      if b = byte ']' then .ok (.arr acc.reverse, bs)
      else if b = byte ',' then
        match skipBlanks bs with
        | [] => stop .endInValue []
        | c :: rest =>
          if c = byte ']' then stop .trailingComma rest
          else do
            let (x, bs) ← value (c :: rest)
            items value fuel (x :: acc) bs
      else stop .expectedListEnd bs

/-- A list behind its opening bracket. -/
def list (value : Bytes → ReadStep) (bs : List UInt8) : ReadStep :=
  match skipBlanks bs with
  | [] => stop .endInList []
  | b :: rest =>
    if b = byte ']' then .ok (.arr [], rest)
    else do
      let (x, rest) ← value (b :: rest)
      items value (rest.length + 1) [x] rest

/-- A member behind the quote of its name. -/
def member (value : Bytes → ReadStep) (bs : List UInt8) :
    Except Stop ((String × Json) × Bytes) := do
  let (name, bs) ← string .text [] bs
  match skipBlanks bs with
  | [] => stop .endInObject []
  | b :: rest =>
    if b = byte ':' then do
      let (v, rest) ← value rest
      return ((name, v), rest)
    else stop .expectedColon rest

/-- The members that follow the first one, up to the closing brace. -/
def members (value : Bytes → ReadStep) :
    Nat → List (String × Json) → List UInt8 → ReadStep
  | 0, _, bs => stop .endInObject bs
  | fuel + 1, acc, bs =>
    match skipBlanks bs with
    | [] => stop .endInObject []
    | b :: bs =>
      if b = byte '\x7d' then .ok (.obj acc, bs)
      else if b = byte ',' then
        match skipBlanks bs with
        | [] => stop .endInValue []
        | c :: rest =>
          if c = byte '"' then do
            let ((name, v), bs) ← member value rest
            members value fuel (insert name v acc) bs
          else if c = byte '\x7d' then stop .trailingComma rest
          else stop .keyNotString rest
      else stop .expectedObjectEnd bs

/-- An object behind its opening brace. -/
def object (value : Bytes → ReadStep) (bs : List UInt8) : ReadStep :=
  match skipBlanks bs with
  | [] => stop .endInObject []
  | b :: rest =>
    if b = byte '\x7d' then .ok (.obj [], rest)
    else if b = byte '"' then do
      let ((name, v), rest) ← member value rest
      members value (rest.length + 1) (insert name v []) rest
    else stop .keyNotString rest

/-- A value, where brackets may open `levels - 1` levels deep. -/
def value : Nat → List UInt8 → ReadStep
  | 0, bs => stopPast .nestingTooDeep bs
  | levels + 1, bs =>
    match skipBlanks bs with
    | [] => stop .endInValue []
    | b :: rest =>
      if b = byte 'n' then word .null ("ull".toUTF8.toList) rest
      else if b = byte 't' then word (.bool true) ("rue".toUTF8.toList) rest
      else if b = byte 'f' then word (.bool false) ("alse".toUTF8.toList) rest
      else if b = byte '-' then number true rest
      else if isDigit b then number false (b :: rest)
      else if b = byte '"' then do
        let (s, rest) ← string .text [] rest
        return (.str s, rest)
      else if b = byte '[' then
        if levels = 0 then stop .nestingTooDeep rest else list (value levels) rest
      else if b = byte '\x7b' then
        if levels = 0 then stop .nestingTooDeep rest else object (value levels) rest
      else stop .expectedValue rest

/-- The bracket of this level is one too many. -/
def nestingLimit : Nat := 128

/-- Where a reader stopped that had `read` bytes behind it: the lines before, and the bytes since
the last end of a line. -/
def Fault.at (cause : Cause) (read : List UInt8) : Fault where
  cause := cause
  line := read.count 0x0A + 1
  column := (read.reverse.takeWhile (· ≠ 0x0A)).length

/-- The value that a text spells; only blanks may stand around it. -/
def read (bs : List UInt8) (levels : Nat := nestingLimit) : Except Fault Json :=
  let outcome : Except Stop Json := do
    let (v, rest) ← value levels bs
    match skipBlanks rest with
    | [] => return v
    | _ :: rest => stop .trailingCharacters rest
  match outcome with
  | .ok v => .ok v
  | .error s => .error (Fault.at s.cause (bs.take (bs.length - s.left)))

def readText (s : String) : Except Fault Json := read s.toUTF8.toList

end Backtest.Json
