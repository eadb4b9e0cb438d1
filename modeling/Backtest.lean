import Backtest.Bar.Json
import Backtest.Cache.Threads
import Backtest.Command.Outcome
import Backtest.Command.Reach
import Backtest.Command.Reader
import Backtest.Http
import Backtest.Main
import Backtest.Proofs.Blocks
import Backtest.Proofs.Extension
import Backtest.Proofs.Double
import Backtest.Proofs.Rounding
import Backtest.Proofs.Characters
import Backtest.Proofs.SoundRule
import Backtest.Proofs.Numerals
import Backtest.Proofs.Multiplier
import Backtest.Proofs.Spelling
import Backtest.Proofs.Summary
import Backtest.Proofs.Equity
import Backtest.Proofs.Moves
import Backtest.Proofs.Flights
import Backtest.Proofs.Removals
import Backtest.Proofs.LiveKeys
import Backtest.Proofs.Solo
import Backtest.Proofs.Agreement
import Backtest.Proofs.LocksLeft
import Backtest.Proofs.CheckOrder
import Backtest.Proofs.Crossings
import Backtest.Proofs.ConditionSets
import Backtest.Proofs.Consistency
import Backtest.Proofs.Rational
import Backtest.Proofs.Arithmetic
import Backtest.Proofs.Bounds
import Backtest.Proofs.FiniteReports
import Backtest.Proofs.Checked.Access
import Backtest.Proofs.Checked.Average
import Backtest.Proofs.Checked.Series
import Backtest.Proofs.Checked.Signal
import Backtest.Proofs.Checked.Run
import Backtest.Proofs.Checked.Performance
import Backtest.Proofs.Checked.Token
import Backtest.Proofs.Checked.Backtest
import Backtest.Proofs.FirstDefect
import Backtest.Proofs.Nearest
import Backtest.Proofs.ShortestDigits
import Backtest.Proofs.NumberText
import Backtest.Proofs.Quoted
import Backtest.Proofs.JsonGrammar
import Backtest.Proofs.JsonText
import Backtest.Proofs.Answers
import Backtest.Proofs.AllOrNothing
import Backtest.Proofs.Exact
import Backtest.Proofs.PriceUnit
import Backtest.Proofs.Lookback
import Backtest.Proofs.Restriction
import Backtest.Proofs.Opposite
import Backtest.Proofs.Directions
import Backtest.Proofs.Spacing
import Backtest.Proofs.Ruin
import Backtest.Proofs.Drawdowns
import Backtest.Proofs.Divergence
import Backtest.Proofs.Windows
import Backtest.Proofs.Mirror
import Backtest.Proofs.Smoothing
import Backtest.Proofs.TrueRange
import Backtest.Proofs.SheetPaths
import Backtest.Proofs.ListedTickers
import Backtest.Proofs.SheetLayout
