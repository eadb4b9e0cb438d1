import Backtest.Decimal.Format

/-!
# Files

A `Disk` is what a program sees of the files: it reads one, lists the names in a directory, and asks
whether a path leads to a file. Paths are texts with slashes.
-/

namespace Backtest

/-- Why a path does not lead to what is asked for. -/
inductive FileFault where
  | notFound
  | notDirectory
  | isDirectory
  | nameTooLong
  /-- The path holds the character of code zero. -/
  | zeroInPath
  /-- The bytes are no text in UTF-8. -/
  | notText
  /-- Another fault, which the system names by a number and a text. -/
  | system (code : Nat) (text : String)
  deriving DecidableEq

def FileFault.message : FileFault → String
  | .notFound => "No such file or directory (os error 2)"
  | .notDirectory => "Not a directory (os error 20)"
  | .isDirectory => "Is a directory (os error 21)"
  | .nameTooLong => "File name too long (os error 36)"
  | .zeroInPath => "file name contained an unexpected NUL byte"
  | .notText => "stream did not contain valid UTF-8"
  | .system code text => text ++ " (os error " ++ Decimal.natText code ++ ")"

/-- The files that a program can reach. -/
structure Disk where
  /-- The bytes of the file at a path. -/
  read : String → Except FileFault ByteArray
  /-- The names in the directory at a path. -/
  list : String → Except FileFault (List String)
  isFile : String → Bool

namespace Disk

/-- The text of the file at a path. -/
def readText (disk : Disk) (path : String) : Except FileFault String :=
  match disk.read path with
  | .error fault => .error fault
  | .ok bytes =>
    match String.fromUTF8? bytes with
    | some text => .ok text
    | none => .error .notText

/-- A path below another one. A path that starts with a slash stands for itself. -/
def join (base path : String) : String :=
  if base.isEmpty || path.startsWith "/" then path
  else if base.endsWith "/" then base ++ path
  else base ++ "/" ++ path

end Disk

end Backtest
