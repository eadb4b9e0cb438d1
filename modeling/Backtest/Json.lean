/-!
# JSON values

A `Json` value keeps what its text says: a whole number and a number with a fraction or an exponent
stay apart, and an object is the list of its members in order. A number is always finite: what is
not becomes `null`. `Json.insert` keeps the members of an object sorted by name, one member for each
name; objects that are read from text are built by it.
-/

namespace Backtest

/-- A number in JSON: whole, or with a fraction or an exponent. -/
inductive Json.Number where
  | whole (i : Int)
  | real (x : Float) (finite : x.isFinite = true)

inductive Json where
  | null
  | bool (b : Bool)
  | num (n : Json.Number)
  | str (s : String)
  | arr (items : List Json)
  | obj (members : List (String × Json))

namespace Json

/-- The double next to a number. Whole numbers are below `2 ^ 64` in magnitude. -/
def Number.toFloat : Number → Float
  | .whole i =>
    let x := (UInt64.ofNat i.natAbs).toFloat
    if i < 0 then -x else x
  | .real x _ => x

/-- A number that is written with a fraction or an exponent; `null` if it is not finite. -/
def ofFloat (x : Float) : Json :=
  if finite : x.isFinite = true then .num (.real x finite) else .null

def ofNat (n : Nat) : Json := .num (.whole n)

/-- The first member of a name. -/
def find? (members : List (String × Json)) (name : String) : Option Json :=
  (members.find? (·.1 == name)).map (·.2)

/-- Members sorted by name with one more: it takes the place of the member of its name, or stands
before the first greater name. -/
def insert (name : String) (value : Json) : List (String × Json) → List (String × Json)
  | [] => [(name, value)]
  | m :: ms =>
    if m.1 = name then (name, value) :: ms
    else if name < m.1 then (name, value) :: m :: ms
    else m :: insert name value ms

/-- The member of a name, if the value is an object that has it. -/
def get? : Json → String → Option Json
  | .obj members, name => find? members name
  | _, _ => none

end Json

end Backtest
