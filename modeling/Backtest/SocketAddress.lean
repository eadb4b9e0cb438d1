import Backtest.Decimal.Format
import Backtest.Text

/-!
# Socket addresses

A `SocketAddress` is a host and a port: `a.b.c.d:port` with four octets, or `[groups]:port` with eight
groups of sixteen bits. In the second form `::` stands for the groups of zeros that are left out, the
last two groups may be spelled as four octets, and `%` and a number may name the scope.
`SocketAddress.text` writes an address in its one canonical form.
-/

namespace Backtest

inductive SocketAddress.Host where
  | octets (a b c d : Nat)
  | groups (groups : List Nat) (scope : Nat)
  deriving DecidableEq

structure SocketAddress where
  host : SocketAddress.Host
  port : Nat
  deriving DecidableEq

namespace SocketAddress

/-- The value of a digit. -/
def digit? (radix : Nat) (c : Char) : Option Nat :=
  let v? :=
    if c.isDigit then some (c.toNat - '0'.toNat)
    else if 'a' ≤ c ∧ c ≤ 'f' then some (c.toNat - 'a'.toNat + 10)
    else if 'A' ≤ c ∧ c ≤ 'F' then some (c.toNat - 'A'.toNat + 10)
    else none
  v?.filter (· < radix)

/-- How a number is spelled. -/
structure NumberRule where
  radix : Nat
  maxDigits : Option Nat
  leadingZeros : Bool
  max : Nat
  deriving DecidableEq

/-- An octet: up to three digits. -/
def octetRule : NumberRule := ⟨10, some 3, false, 0xFF⟩

/-- A group: up to four hexadecimal digits. -/
def groupRule : NumberRule := ⟨16, some 4, true, 0xFFFF⟩

/-- A port: any number of digits. -/
def portRule : NumberRule := ⟨10, none, true, 0xFFFF⟩

/-- A scope: any number of digits. -/
def scopeRule : NumberRule := ⟨10, none, true, 0xFFFFFFFF⟩

/-- The number at the head of a text, which takes all digits there are, and what follows. -/
def NumberRule.take? (r : NumberRule) (cs : List Char) : Option (Nat × List Char) :=
  let ds := cs.takeWhile fun c => (digit? r.radix c).isSome
  let n := ds.foldl (fun n c => r.radix * n + (digit? r.radix c).getD 0) 0
  if ds.isEmpty || (r.maxDigits.any (· < ds.length)) then none
  else if !r.leadingZeros && 1 < ds.length && ds.head? = some '0' then none
  else if r.max < n then none
  else some (n, cs.drop ds.length)

/-- What follows a character at the head of a text. -/
def skip? (c : Char) : List Char → Option (List Char)
  | [] => none
  | d :: cs => if d = c then some cs else none

/-- Four octets at the head of a text. -/
def octets? (cs : List Char) : Option ((Nat × Nat × Nat × Nat) × List Char) := do
  let (a, cs) ← octetRule.take? cs
  let (b, cs) ← octetRule.take? (← skip? '.' cs)
  let (c, cs) ← octetRule.take? (← skip? '.' cs)
  let (d, cs) ← octetRule.take? (← skip? '.' cs)
  return ((a, b, c, d), cs)

/-- The groups at the head of a text, at most `limit` of them, with colons between; whether the last
two were spelled as octets; and what follows. -/
def takeGroups (first : Bool) : Nat → List Char → List Nat × Bool × List Char
  | 0, cs => ([], false, cs)
  | limit + 1, cs =>
    let body? := if first then some cs else skip? ':' cs
    match (if 1 ≤ limit then body?.bind octets? else none), body?.bind groupRule.take? with
    | some ((a, b, c, d), rest), _ => ([256 * a + b, 256 * c + d], true, rest)
    | none, some (g, rest) =>
      let (gs, spelled, rest) := takeGroups false limit rest
      (g :: gs, spelled, rest)
    | none, none => ([], false, cs)

/-- Eight groups at the head of a text. -/
def groups? (cs : List Char) : Option (List Nat × List Char) :=
  match takeGroups true 8 cs with
  | (front, spelled, rest) =>
    if front.length = 8 then some (front, rest)
    else if spelled then none
    else do
      let rest ← skip? ':' (← skip? ':' rest)
      let (back, _, rest) := takeGroups true (7 - front.length) rest
      return (front ++ List.replicate (8 - front.length - back.length) 0 ++ back, rest)

/-- The port behind a colon, which ends the text. -/
def port? (cs : List Char) : Option Nat :=
  match (skip? ':' cs).bind portRule.take? with
  | some (port, []) => some port
  | _ => none

/-- The scope behind a percent sign; without one it is zero. -/
def takeScope (cs : List Char) : Nat × List Char :=
  ((skip? '%' cs).bind scopeRule.take?).getD (0, cs)

/-- The address that a text spells. -/
def read? (text : String) : Option SocketAddress :=
  match text.toList with
  | '[' :: cs => do
    let (gs, cs) ← groups? cs
    let (scope, cs) := takeScope cs
    return ⟨.groups gs scope, ← port? (← skip? ']' cs)⟩
  | cs => do
    let ((a, b, c, d), cs) ← octets? cs
    return ⟨.octets a b c d, ← port? cs⟩

/-- Four octets with points between. -/
def octetsText (a b c d : Nat) : String :=
  ".".intercalate ([a, b, c, d].map Decimal.natText)

/-- Groups with colons between, in lower case. -/
def groupsText (gs : List Nat) : String :=
  ":".intercalate (gs.map fun g => String.ofList (Nat.toDigits 16 g))

/-- The start and the length of the first longest run of zeros, where a run of the given length
stands in front of the given place. -/
def zeroRun (place run : Nat) : List Nat → Nat × Nat
  | [] => (place - run, run)
  | g :: gs =>
    if g = 0 then zeroRun (place + 1) (run + 1) gs
    else
      let later := zeroRun (place + 1) 0 gs
      if later.2 ≤ run then (place - run, run) else later

/-- The canonical form of eight groups: the first longest run of at least two zeros is left out. -/
def groupsHost (gs : List Nat) : String :=
  match gs with
  | [0, 0, 0, 0, 0, 0xFFFF, high, low] =>
    "::ffff:" ++ octetsText (high / 256) (high % 256) (low / 256) (low % 256)
  | _ =>
    let (start, length) := zeroRun 0 0 gs
    if length ≤ 1 then groupsText gs
    else groupsText (gs.take start) ++ "::" ++ groupsText (gs.drop (start + length))

/-- The canonical form of an address. -/
def text (a : SocketAddress) : String :=
  let host := match a.host with
    | .octets a b c d => octetsText a b c d
    | .groups gs scope =>
      "[" ++ groupsHost gs ++ (if scope = 0 then "" else "%" ++ Decimal.natText scope) ++ "]"
  host ++ ":" ++ Decimal.natText a.port

end SocketAddress

end Backtest
