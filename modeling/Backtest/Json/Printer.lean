import Backtest.Json
import Backtest.Decimal.Format

/-!
# Writing JSON

`Json.compact` writes a value on one line without blanks; `Json.pretty` writes every item and every
member on a line of its own, indented by two blanks for each level. Members keep their order.
-/

namespace Backtest.Json

/-- A hexadecimal digit in lower case. -/
def hexDigit (n : Nat) : Char :=
  Char.ofNat (if n < 10 then '0'.toNat + n else 'a'.toNat + (n - 10))

/-- A character inside quotes: the quote, the backslash and control characters are escaped. -/
def escape (c : Char) : List Char :=
  if c = '"' then ['\\', '"']
  else if c = '\\' then ['\\', '\\']
  else if c = '\n' then ['\\', 'n']
  else if c = '\r' then ['\\', 'r']
  else if c = '\t' then ['\\', 't']
  else if c.toNat = 8 then ['\\', 'b']
  else if c.toNat = 12 then ['\\', 'f']
  else if c.toNat < 32 then
    ['\\', 'u', '0', '0', hexDigit (c.toNat / 16), hexDigit (c.toNat % 16)]
  else [c]

def quoted (s : String) : String :=
  "\"" ++ String.ofList (s.toList.flatMap escape) ++ "\""

def Number.write : Number → String
  | .whole i => (if i < 0 then "-" else "") ++ Decimal.natText i.natAbs
  | .real x _ => Decimal.NumberFormat.json.write x

mutual

/-- A value on one line. -/
def compact : Json → String
  | .null => "null"
  | .bool b => if b then "true" else "false"
  | .num n => n.write
  | .str s => quoted s
  | .arr items => "[" ++ compactItems items ++ "]"
  | .obj members => "\x7b" ++ compactMembers members ++ "\x7d"

def compactItems : List Json → String
  | [] => ""
  | [x] => compact x
  | x :: y :: rest => compact x ++ "," ++ compactItems (y :: rest)

def compactMembers : List (String × Json) → String
  | [] => ""
  | [(k, v)] => quoted k ++ ":" ++ compact v
  | (k, v) :: m :: rest => quoted k ++ ":" ++ compact v ++ "," ++ compactMembers (m :: rest)

end

/-- A new line, indented for a level. -/
def newLine (level : Nat) : String :=
  "\n" ++ String.ofList (List.replicate (2 * level) ' ')

mutual

/-- A value in lines, at a level of indentation. -/
def prettyAt (level : Nat) : Json → String
  | .arr (x :: rest) => "[" ++ prettyItems (level + 1) (x :: rest) ++ newLine level ++ "]"
  | .obj (m :: rest) => "\x7b" ++ prettyMembers (level + 1) (m :: rest) ++ newLine level ++ "\x7d"
  | .null => "null"
  | .bool b => if b then "true" else "false"
  | .num n => n.write
  | .str s => quoted s
  | .arr [] => "[]"
  | .obj [] => "\x7b\x7d"

def prettyItems (level : Nat) : List Json → String
  | [] => ""
  | [x] => newLine level ++ prettyAt level x
  | x :: y :: rest => newLine level ++ prettyAt level x ++ "," ++ prettyItems level (y :: rest)

def prettyMembers (level : Nat) : List (String × Json) → String
  | [] => ""
  | [(k, v)] => newLine level ++ quoted k ++ ": " ++ prettyAt level v
  | (k, v) :: m :: rest =>
    newLine level ++ quoted k ++ ": " ++ prettyAt level v ++ "," ++ prettyMembers level (m :: rest)

end

/-- A value in lines. -/
def pretty (v : Json) : String := prettyAt 0 v

end Backtest.Json
