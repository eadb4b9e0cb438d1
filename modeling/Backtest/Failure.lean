import Backtest.Rule.Candidate
import Backtest.Run

/-!
# Failures

Whatever goes wrong on the way from a request to its report ends as a `Failure`. Its kind decides the
exit code of a command and the status of an HTTP answer; its message is all that is shown of it.
-/

namespace Backtest

/-- What stands in the place of a result. -/
inductive Failure where
  /-- The candidate is no strategy. -/
  | malformed (reason : String)
  /-- The history is too short for what is asked. -/
  | insufficientHistory (ticker limiting : String) (required bars : Nat)
  /-- No prices can be had for the ticker. -/
  | unresolvable (ticker reason : String)
  /-- The prices or what is computed from them cannot be used. -/
  | computation (reason : String)
  /-- The configuration cannot be read. -/
  | configSyntax (file reason : String)
  /-- The configuration lacks a value. -/
  | configMissing (group key : String)
  /-- A value of the configuration cannot be used. -/
  | configInvalid (group key reason : String)
  | json (reason : String)
  | io (reason : String)
  deriving DecidableEq

namespace Failure

def message : Failure → String
  | .malformed reason => "malformed strategy: " ++ reason
  | .insufficientHistory ticker limiting required bars =>
    "insufficient history for " ++ ticker ++ ": " ++ limiting ++ " needs " ++
      Decimal.natText required ++ " bars, have " ++ Decimal.natText bars
  | .unresolvable ticker reason => "unresolvable ticker " ++ ticker ++ ": " ++ reason
  | .computation reason => "computation error: " ++ reason
  | .configSyntax file reason => "config parse error in " ++ file ++ ": " ++ reason
  | .configMissing group key => "missing config key [" ++ group ++ "] " ++ key
  | .configInvalid group key reason =>
    "invalid config value [" ++ group ++ "] " ++ key ++ ": " ++ reason
  | .json reason => reason
  | .io reason => reason

def exitCode : Failure → Nat
  | .json _ | .io _ => 1
  | .configSyntax .. | .configMissing .. | .configInvalid .. => 2
  | .malformed _ => 3
  | .unresolvable .. => 4
  | .insufficientHistory .. => 5
  | .computation _ => 6

def status : Failure → Nat
  | .malformed _ => 400
  | .unresolvable .. => 404
  | .insufficientHistory .. => 422
  | _ => 500

/-- A failure in JSON: its message alone. -/
def body (f : Failure) : Json := .obj [("error", .str f.message)]

def ofDefect (d : Defect) : Failure := .malformed d.message

/-- A run that is not possible. -/
def ofRunFault (ticker : String) : Run.Fault Float → Failure
  | .badHistory fault => .computation fault.message
  | .shortHistory limiting required bars =>
    .insufficientHistory ticker (match limiting with
      | some operand => operand.text
      | none => Source.price.text) required bars
  | .notFinite fault => .computation fault.message
  | .emptyWindow window => .insufficientHistory ticker window.text 1 0
  | .badReturn trade =>
    .computation ("trade entered " ++ trade.date.text ++ " at " ++ Decimal.plainText trade.price ++
      " produced a non-finite return")

end Failure

end Backtest
