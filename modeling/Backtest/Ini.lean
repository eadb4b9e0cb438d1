import Backtest.Assoc
import Backtest.Decimal.Format
import Backtest.Text
import Backtest.Text.Case

/-!
# Settings files

A settings file is a text of lines. A line is a section's name in brackets, or a key with a value behind
`=` or `:`, or a key alone. What stands behind `;` or `#` is a comment. Names and keys are read in
lower case; keys in front of the first section belong to `Ini.defaultSection`, and of several values
under one key the last one counts.
-/

namespace Backtest

/-- The values under sections and keys; a key alone has none. -/
structure Ini where
  entries : Assoc (String × String) (Option String)

namespace Ini

/-- What can be wrong with a line, which is numbered from one. -/
inductive Fault where
  /-- A bracket opens a section's name and none closes it. -/
  | unclosed (line : Nat)
  /-- There is no key in front of the separator. -/
  | noKey (line : Nat)
  deriving DecidableEq

def Fault.message : Fault → String
  | .unclosed line =>
    "line " ++ Decimal.natText line ++
      ": Found opening bracket for section name but no closing bracket"
  | .noKey line => "line " ++ Decimal.natText line ++ ":0: Key cannot be empty"

/-- The section of the keys in front of the first section. -/
def defaultSection : String := "default"

def isComment (c : Char) : Bool := c = ';' || c = '#'

def isSeparator (c : Char) : Bool := c = '=' || c = ':'

/-- What a line says. -/
inductive Line where
  | blank
  | header (name : String)
  | entry (key : String) (value : Option String)
  deriving DecidableEq

/-- A name or a key as it is looked up. -/
def nameOf (cs : List Char) : String := Text.lowercase (String.ofList (Text.trim cs))

/-- What a line of this number says. -/
def Line.read (number : Nat) (cs : List Char) : Except Fault Line :=
  let cs := Text.trim ((Text.trim cs).takeWhile fun c => !isComment c)
  match cs with
  | [] => .ok .blank
  | '[' :: rest =>
    match rest.reverse.dropWhile (· ≠ ']') with
    | [] => .error (.unclosed number)
    | _ :: name => .ok (.header (nameOf name.reverse))
  | _ =>
    let key := cs.takeWhile fun c => !isSeparator c
    match cs.dropWhile fun c => !isSeparator c with
    | [] => .ok (.entry (nameOf key) none)
    | _ :: value =>
      if key.isEmpty then .error (.noKey number)
      else .ok (.entry (nameOf key) (some (String.ofList (Text.trim value))))

/-- The settings with what some lines add to them, where the first line has the given number and
stands in the given section. -/
def addLines (number : Nat) (group : String) (ini : Ini) : List (List Char) → Except Fault Ini
  | [] => .ok ini
  | cs :: rest =>
    match Line.read number cs with
    | .error fault => .error fault
    | .ok .blank => addLines (number + 1) group ini rest
    | .ok (.header name) => addLines (number + 1) name ini rest
    | .ok (.entry key value) =>
      addLines (number + 1) group ⟨ini.entries.put (group, key) value⟩ rest

def read (text : String) : Except Fault Ini :=
  addLines 1 defaultSection ⟨[]⟩ (Text.splitOn '\n' text.toList)

/-- The value under a section and a key, without blanks at its ends; an empty one does not count. -/
def get? (ini : Ini) (group key : String) : Option String :=
  match ini.entries.get? (Text.lowercase group, Text.lowercase key) with
  | some (some value) => if value.isEmpty then none else some value
  | _ => none

end Ini

end Backtest
