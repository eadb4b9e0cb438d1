import Backtest.Cache
import Backtest.Command
import Backtest.Files.Tree
import Backtest.Json.Printer
import Backtest.Json.Reader
import Backtest.Settings

/-!
# Running commands

`Command.perform` does all the work of a command up to its product: a text to print, a file to write, or
an address to listen on. It only reads. `Command.run` also writes, in a tree of files on a device. Nothing
listens here: an address is one that cannot be listened on.
-/

namespace Backtest

namespace Command

/-- What a command comes to. -/
inductive Product where
  /-- A text for standard output. -/
  | printed (text : String)
  /-- A text for a file. -/
  | saved (path text : String)
  /-- Requests are to be answered. -/
  | listening (address : SocketAddress)

/-- The settings in a file, all of them checked. -/
def loadSettings (disk : Disk) (path : String) : Except Failure Settings := do
  let settings ← Settings.ofFile disk path
  settings.check true
  return settings

def loadCandidate (disk : Disk) (path : String) : Except Failure Json :=
  match disk.readText path with
  | .error fault => .error (.io fault.message)
  | .ok text =>
    match Json.readText text with
    | .ok v => .ok v
    | .error fault => .error (.malformed (path ++ " is not valid JSON: " ++ fault.message))

/-- A candidate with another ticker; what is no object stays as it is. -/
def withTicker (ticker : Option String) (candidate : Json) : Json :=
  match ticker, candidate with
  | some t, .obj members => .obj (Json.insert "ticker" (.str t) members)
  | _, _ => candidate

/-- The report on a candidate under settings. -/
def report (disk : Disk) (settings : Settings) (candidate : Json) : Except Failure Report := do
  let source := (← settings.directory).source
  let timeframe ← settings.timeframe
  let window ← settings.window
  if settings.isCached then
    (source.cached.backtest ([], disk) candidate timeframe window).1
  else (source.backtest disk candidate timeframe window).1

/-- The rule of a candidate: for the tickers in the directory of the settings, or for any ticker. -/
def rule (disk : Disk) (config : Option String) (strategy : String) :
    Except Failure (Rule Float) := do
  match config with
  | some path =>
    let settings ← loadSettings disk path
    let candidate ← loadCandidate disk strategy
    (← settings.directory).source.validate disk candidate
  | none =>
    match Rule.ofCandidate (fun _ => true) (← loadCandidate disk strategy) with
    | .ok rule => return rule
    | .error defect => throw (Failure.ofDefect defect)

/-- A value as a text of lines. -/
def document (v : Json) : String := v.pretty ++ "\n"

def perform (disk : Disk) : Command → Except Failure Product
  | .backtest config strategy ticker output => do
    let settings ← loadSettings disk config
    let candidate ← loadCandidate disk strategy
    let report ← report disk settings (withTicker ticker candidate)
    let text := document report.toJson
    match output with
    | some path => return .saved path text
    | none => return .printed text
  | .validate strategy config => do
    return .printed (document (← rule disk config strategy).summary)
  | .listTickers config => do
    let settings ← loadSettings disk config
    let tickers ← (← settings.directory).tickers disk
    return .printed (String.join (tickers.map (· ++ "\n")))
  | .serve config => do
    let settings ← loadSettings disk config
    return .listening (← settings.listen)

/-- What is seen of a command: its exit code and its standard output. -/
structure Outcome where
  exitCode : Nat
  output : String
  deriving DecidableEq

def Outcome.ofFailure (f : Failure) : Outcome := ⟨f.exitCode, f.body.compact ++ "\n"⟩

/-- The outcome of writing a file. -/
def Outcome.ofWrite : Except FileFault Unit → Outcome
  | .ok () => ⟨0, ""⟩
  | .error fault => .ofFailure (.io fault.message)

/-- The outcome of listening on an address where this is not possible. -/
def Outcome.ofAddress (address : SocketAddress) : Outcome :=
  .ofFailure (.io ("cannot listen on " ++ address.text))

/-- Runs a command in a tree of files. -/
def run (t : FileTree) (c : Command) (device : FileTree.Device := .roomy) : Outcome × FileTree :=
  match c.perform t.disk with
  | .error failure => (.ofFailure failure, t)
  | .ok (.printed text) => (⟨0, text⟩, t)
  | .ok (.listening address) => (.ofAddress address, t)
  | .ok (.saved path text) =>
    let (written, next) := t.write device path text.toUTF8
    (.ofWrite written, next)

end Command

end Backtest
