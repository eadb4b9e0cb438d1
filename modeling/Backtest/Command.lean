/-!
# Commands

What the program can be told to do, the options of each command, and the reasons for which its
arguments are refused.
-/

namespace Backtest

inductive Command where
  /-- Reports on a strategy, on standard output or in a file. -/
  | backtest (config strategy : String) (ticker output : Option String)
  /-- Shows the rule of a strategy. -/
  | validate (strategy : String) (config : Option String)
  /-- Lists the tickers with daily bars. -/
  | listTickers (config : String)
  /-- Answers requests over HTTP. -/
  | serve (config : String)
  deriving DecidableEq

namespace Command

/-- Why arguments do not make a command. -/
inductive Usage where
  | help
  | noCommand
  | version
  | unknownCommand
  | unknownArgument
  /-- A flag that takes no value has one. -/
  | unneededValue
  /-- An option has no value, or an empty path. -/
  | noValue
  /-- An option stands twice. -/
  | repeated
  /-- An option that is needed does not stand there. -/
  | missing
  deriving DecidableEq

inductive Key where
  | config
  | strategy
  | ticker
  | output
  deriving DecidableEq

namespace Key

def text : Key → String
  | .config => "config"
  | .strategy => "strategy"
  | .ticker => "ticker"
  | .output => "output"

def letter : Key → Char
  | .config => 'c'
  | .strategy => 's'
  | .ticker => 't'
  | .output => 'o'

/-- Whether the value of an option is a path. -/
def isPath : Key → Bool
  | .ticker => false
  | _ => true

end Key

inductive Verb where
  | backtest
  | validate
  | listTickers
  | serve
  deriving DecidableEq

namespace Verb

def text : Verb → String
  | .backtest => "backtest"
  | .validate => "validate"
  | .listTickers => "list-tickers"
  | .serve => "serve"

def read? (name : String) : Option Verb :=
  [Verb.backtest, .validate, .listTickers, .serve].find? (·.text == name)

def keys : Verb → List Key
  | .backtest => [.config, .strategy, .ticker, .output]
  | .validate => [.strategy, .config]
  | .listTickers => [.config]
  | .serve => [.config]

end Verb

end Command

end Backtest
