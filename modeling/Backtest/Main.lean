import Backtest.Command.Outcome
import Backtest.Command.Reach
import Backtest.Command.Reader

/-!
# The program

Fetches the files within reach of a command, lets `Command.perform` do the work on them, and prints or
writes the product. Nothing is decided here but how a fault of the system is called.
-/

namespace Backtest

/-- The number of a fault. Some calls give it with its sign turned. -/
def FileFault.number (code : UInt32) : Nat := code.toInt32.toInt.natAbs

/-- The fault that the system gives a number. -/
def FileFault.ofCode (code : UInt32) (text : String) : FileFault :=
  match number code with
  | 2 => .notFound
  | 20 => .notDirectory
  | 21 => .isDirectory
  | 36 => .nameTooLong
  | n => .system n text

/-- The fault that an error of the system reports. -/
def FileFault.ofError : IO.Error → FileFault
  | .noFileOrDirectory _ code text => .ofCode code text
  | .inappropriateType _ code text => .ofCode code text
  | .invalidArgument _ code text => .ofCode code text
  | .permissionDenied _ code text => .ofCode code text
  | .resourceExhausted _ code text => .ofCode code text
  | .alreadyExists _ code text => .ofCode code text
  | .otherError code text => .ofCode code text
  | .unsupportedOperation code text => .ofCode code text
  | .resourceBusy code text => .ofCode code text
  | .hardwareFault code text => .ofCode code text
  | e => .system 5 e.toString

/-- An action on the files at a path, with the fault that it meets. -/
def attempt {α : Type} (path : String) (action : IO α) : IO (Except FileFault α) := do
  if path.isEmpty then return .error .notFound
  if path.contains '\x00' then return .error .zeroInPath
  try return .ok (← action)
  catch e => return .error (.ofError e)

/-- What was found at some paths. -/
structure Findings where
  files : Assoc String (Except FileFault ByteArray)
  directories : Assoc String (Except FileFault (List String))

namespace Findings

/-- The files as far as they were looked at. -/
def disk (f : Findings) : Disk where
  read path := (f.files.get? path).getD (.error .notFound)
  list path := (f.directories.get? path).getD (.error .notFound)
  isFile path := ((f.files.get? path).bind Except.toOption).isSome

/-- The findings with the files at some paths. -/
def withFiles (f : Findings) (paths : List String) : IO Findings := do
  let found ← paths.mapM fun path => return (path, ← attempt path (IO.FS.readBinFile path))
  return { f with files := found ++ f.files }

/-- The findings with the names in some directories. -/
def withDirectories (f : Findings) (paths : List String) : IO Findings := do
  let here ← IO.currentDir
  let found ← paths.mapM fun path => do
    let names ← attempt path do
      return (← (here / path).readDir).toList.map (·.fileName)
    return (path, names)
  return { f with directories := found ++ f.directories }

/-- What is within reach of a command. -/
def of (c : Command) : IO Findings := do
  let named ← (⟨[], []⟩ : Findings).withFiles c.files
  let known ← named.withFiles (c.sheets named.disk)
  known.withDirectories (c.directories known.disk)

end Findings

/-- The commands with their options. -/
def Command.help : String :=
  "backtest --config FILE --strategy FILE [--ticker TICKER] [--output FILE]\n" ++
    "validate --strategy FILE [--config FILE]\n" ++
    "list-tickers --config FILE\n" ++
    "serve --config FILE\n"

def Command.Outcome.emit (o : Outcome) : IO UInt32 := do
  IO.print o.output
  return o.exitCode.toUInt32

def Command.execute (c : Command) : IO UInt32 := do
  match c.perform (← Findings.of c).disk with
  | .error failure => (Outcome.ofFailure failure).emit
  | .ok (.printed text) => (⟨0, text⟩ : Outcome).emit
  | .ok (.saved path text) =>
    (Outcome.ofWrite (← attempt path (IO.FS.writeFile path text))).emit
  | .ok (.listening address) => (Outcome.ofAddress address).emit

end Backtest

/-- The program on its arguments. -/
def main (args : List String) : IO UInt32 := do
  match Backtest.Command.read args with
  | .ok command => command.execute
  | .error .help =>
    IO.print Backtest.Command.help
    return 0
  | .error .version =>
    IO.println "backtest 0.1.0"
    return 0
  | .error _ =>
    IO.eprint Backtest.Command.help
    return 2
