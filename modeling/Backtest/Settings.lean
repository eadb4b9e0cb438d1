import Backtest.Ini
import Backtest.PriceDirectory
import Backtest.SocketAddress

/-!
# Settings

The settings of the program: where the prices are and of which timeframe, whether they are cached, the
window of the simulation, the address to listen on and the level of the log. `Settings.check` checks
them in a fixed order before anything else is done.
-/

namespace Backtest

/-- The settings of the program. -/
structure Settings where
  values : Ini

namespace Settings

/-- The flag that a word stands for. -/
def readFlag? (raw : String) : Option Bool :=
  match Text.lowercase (Text.trimmed raw) with
  | "true" | "yes" | "1" | "on" => some true
  | "false" | "no" | "0" | "off" => some false
  | _ => none

/-- The settings of a text that comes from a file. -/
def ofText (file text : String) : Except Failure Settings :=
  match Ini.read text with
  | .ok ini => .ok ⟨ini⟩
  | .error fault => .error (.configSyntax file fault.message)

/-- The settings in a file. -/
def ofFile (disk : Disk) (path : String) : Except Failure Settings :=
  let fail (reason : String) := Except.error (Failure.configSyntax path
    ("couldn't read " ++ path ++ ": " ++ reason))
  match disk.readText path with
  | .error fault => fail fault.message
  | .ok text =>
    match Ini.read text with
    | .ok ini => .ok ⟨ini⟩
    | .error fault => fail fault.message

/-- The flag under a group and key, or the default where there is none that can be read. -/
def flag (s : Settings) (group key : String) (default : Bool) : Bool :=
  ((s.values.get? group key).bind readFlag?).getD default

def directory (s : Settings) : Except Failure PriceDirectory :=
  match s.values.get? "data" "csv_dir" with
  | some path => .ok ⟨path⟩
  | none => .error (.configMissing "data" "csv_dir")

/-- The timeframe of the prices; by default a day. -/
def timeframe (s : Settings) : Except Failure Timeframe :=
  match s.values.get? "data" "timeframe" with
  | none => .ok .daily
  | some raw =>
    match Timeframe.read raw with
    | .ok timeframe => .ok timeframe
    | .error reason => .error (.configInvalid "data" "timeframe" reason)

/-- Whether the prices are cached; by default they are. -/
def isCached (s : Settings) : Bool := s.flag "data" "cache" true

/-- Asks for a flag that can be read, if there is one. -/
def checkCache (s : Settings) : Except Failure Unit :=
  match s.values.get? "data" "cache" with
  | none => .ok ()
  | some raw =>
    if (readFlag? raw).isSome then .ok ()
    else .error (.configInvalid "data" "cache" ("'" ++ raw ++ "' is not a boolean"))

/-- The date under a key of the window. -/
def date? (s : Settings) (key : String) : Except Failure (Option Date) :=
  match s.values.get? "backtest" key with
  | none => .ok none
  | some raw =>
    match Date.read .close raw.toList with
    | .ok d => .ok (some d)
    | .error _ => .error (.configInvalid "backtest" key
        ("invalid " ++ key ++ " format, expected YYYY-MM-DD"))

/-- The window of the simulation; by default all there is. -/
def window (s : Settings) : Except Failure Window := do
  let start ← s.date? "start_date"
  let stop ← s.date? "end_date"
  match start, stop with
  | some a, some b =>
    if b ≤ a then
      throw (.configInvalid "backtest" "start_date" "start_date must be before end_date")
  | _, _ => pure ()
  return ⟨start, stop⟩

/-- The address to listen on by default. -/
def defaultListen : String := "127.0.0.1:8000"

def listen (s : Settings) : Except Failure SocketAddress :=
  let raw := (s.values.get? "web" "listen").getD defaultListen
  match SocketAddress.read? raw with
  | some address => .ok address
  | none => .error (.configInvalid "web" "listen" ("'" ++ raw ++ "' is not a socket address"))

def logLevel (s : Settings) : String :=
  (s.values.get? "logging" "level").getD "stratsim=info"

/-- Checks all settings; the directory only where prices are needed. -/
def check (s : Settings) (needsData : Bool) : Except Failure Unit := do
  if needsData then
    let _ ← s.directory
  let _ ← s.timeframe
  s.checkCache
  let _ ← s.window
  let _ ← s.listen

end Settings

end Backtest
