import Backtest.Assoc
import Backtest.Command

/-!
# Reading arguments

A command is a name and its options in any order: `--key value`, `--key=value`, `-k value`, `-k=value`
or `-kvalue`. A value may be a lone hyphen, but nothing else that starts with one. `Command.read` gives
the command, or the first reason against it.

The value of an option is looked at when the next option, or the end, is reached. So an argument that
is not known is refused before a fault of the option in front of it.
-/

namespace Backtest.Command

/-- Options as far as they are read. -/
structure Draft where
  values : Assoc Key String
  /-- The option that was read last, and the value behind it. -/
  pending : Option (Key × Option String)
  deriving DecidableEq

namespace Draft

def empty : Draft := ⟨[], none⟩

/-- The draft with the value of an option. -/
def add (d : Draft) (key : Key) (value : String) : Except Usage Draft :=
  if (d.values.get? key).isSome then .error .repeated
  else if key.isPath && value.isEmpty then .error .noValue
  else .ok { d with values := d.values.put key value }

/-- The draft with the option that was read last. -/
def settle (d : Draft) : Except Usage Draft :=
  match d.pending with
  | none => .ok d
  | some (_, none) => .error .noValue
  | some (key, some value) => { d with pending := none }.add key value

/-- The draft behind an option whose value may stand with it. -/
def option (d : Draft) (key : Key) (value : Option String) : Except Usage Draft := do
  let d ← d.settle
  match value with
  | some v => d.add key v
  | none => return { d with pending := some (key, none) }

end Draft

/-- What an argument looks like. -/
inductive Shape where
  /-- Two hyphens alone. -/
  | stop
  /-- Two hyphens and a name, maybe with a value behind an equals sign. -/
  | long (name : String) (value : Option String)
  /-- A hyphen and a letter, maybe with a value. -/
  | short (letter : Char) (value : Option String)
  | word
  deriving DecidableEq

def Shape.of (argument : String) : Shape :=
  match argument.toList with
  | ['-', '-'] => .stop
  | '-' :: '-' :: cs =>
    .long (String.ofList (cs.takeWhile (· ≠ '=')))
      (match cs.dropWhile (· ≠ '=') with
        | [] => none
        | _ :: value => some (String.ofList value))
  | '-' :: letter :: cs =>
    .short letter
      (match cs with
        | [] => none
        | '=' :: value => some (String.ofList value)
        | _ => some (String.ofList cs))
  | _ => .word

/-- The options that arguments give to a command. -/
def readOptions (verb : Verb) (d : Draft) : List String → Except Usage Draft
  | [] => d.settle
  | a :: rest =>
    match Shape.of a with
    | .stop =>
      match rest with
      | [] => d.settle
      | _ :: _ => .error .unknownArgument
    | .long name value =>
      match verb.keys.find? (·.text == name), name, value with
      | some key, _, _ => do readOptions verb (← d.option key value) rest
      | none, "help", some _ => .error .unneededValue
      | none, "help", none => do
        let _ ← d.settle
        throw .help
      | none, _, _ => .error .unknownArgument
    | .short letter value =>
      match verb.keys.find? (·.letter == letter) with
      | some key => do readOptions verb (← d.option key value) rest
      | none =>
        if letter = 'h' then do
          let _ ← d.settle
          throw .help
        else .error .unknownArgument
    | .word =>
      match d.pending with
      | some (key, none) => readOptions verb { d with pending := some (key, some a) } rest
      | _ => .error .unknownArgument

/-- The value of an option that is needed. -/
def Draft.need (d : Draft) (key : Key) : Except Usage String :=
  match d.values.get? key with
  | some value => .ok value
  | none => .error .missing

/-- The command of a name with options. -/
def ofDraft (verb : Verb) (d : Draft) : Except Usage Command := do
  match verb with
  | .backtest =>
    return .backtest (← d.need .config) (← d.need .strategy) (d.values.get? .ticker)
      (d.values.get? .output)
  | .validate => return .validate (← d.need .strategy) (d.values.get? .config)
  | .listTickers => return .listTickers (← d.need .config)
  | .serve => return .serve (← d.need .config)

/-- Whether a word names a command or asks for help. -/
def isKnown (word : String) : Bool := (Verb.read? word).isSome || word == "help"

/-- What the words behind `help` ask for: a single command, or all. -/
def readHelp : List String → Usage
  | [] => .help
  | [word] => if isKnown word then .help else .unknownCommand
  | _ => .unknownCommand

/-- The command that arguments spell. -/
def read : List String → Except Usage Command
  | [] => .error .noCommand
  | a :: rest =>
    match Verb.read? a with
    | some verb => do ofDraft verb (← readOptions verb .empty rest)
    | none =>
      if a = "help" then .error (readHelp rest)
      else match Shape.of a with
        | .stop =>
          match rest with
          | [] => .error .noCommand
          | b :: _ => .error (if isKnown b then .unknownArgument else .unknownCommand)
        | .long name value =>
          if name ≠ "help" ∧ name ≠ "version" then .error .unknownArgument
          else if value.isSome then .error .unneededValue
          else .error (if name = "help" then .help else .version)
        | .short letter _ =>
          .error (if letter = 'h' then .help else if letter = 'V' then .version
            else .unknownArgument)
        | .word => .error .unknownCommand

end Backtest.Command
