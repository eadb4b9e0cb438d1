import Backtest.Command.Outcome

/-!
# Files within reach

A command reads the files that it names, the sheets of one ticker, and the names in the directory of the
prices. `Command.files`, `Command.sheets` and `Command.directories` say which these are, so that they can
be fetched before `Command.perform` looks at them. The sheets and directories depend on what the named
files hold.
-/

namespace Backtest.Command

/-- The files that a command names to read. -/
def files : Command → List String
  | .backtest config strategy _ _ => [config, strategy]
  | .validate strategy config => config.toList ++ [strategy]
  | .listTickers config => [config]
  | .serve config => [config]

/-- The directory of the prices under the settings in a file. -/
def directory? (disk : Disk) (config : String) : Option PriceDirectory :=
  match loadSettings disk config with
  | .ok settings => settings.directory.toOption
  | .error _ => none

/-- The sheets of the ticker of a candidate. A candidate whose other parts are refused needs none, as its
ticker is resolved last. -/
def sheetsOf (disk : Disk) (config strategy : String) (ticker : Option String) : List String :=
  match directory? disk config, loadCandidate disk strategy with
  | some directory, .ok candidate =>
    match Rule.ofCandidate (fun _ => true) (withTicker ticker candidate) with
    | .ok rule => directory.sheets rule.ticker
    | .error _ => []
  | _, _ => []

/-- The sheets that a command may read. -/
def sheets (disk : Disk) : Command → List String
  | .backtest config strategy ticker _ => sheetsOf disk config strategy ticker
  | .validate strategy (some config) => sheetsOf disk config strategy none
  | .validate _ none => []
  | .listTickers _ => []
  | .serve _ => []

/-- The directories whose names a command lists. -/
def directories (disk : Disk) : Command → List String
  | .listTickers config => (directory? disk config).toList.map (·.path)
  | _ => []

end Backtest.Command
