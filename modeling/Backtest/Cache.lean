import Backtest.Assoc
import Backtest.Market

/-!
# Caches

A `Cache` keeps the bars that were fetched, under their ticker and timeframe. `PriceSource.cached` puts
one in front of a source of prices: what the cache holds is not fetched again, what is fetched is kept,
and a fetch that fails leaves the cache as it is.
-/

namespace Backtest

/-- What bars are kept under. -/
abbrev Cache.Key := String × Timeframe

abbrev Cache := Assoc Cache.Key (List (Bar Float))

namespace Cache

/-- Whether the cache has bars of a ticker, of any timeframe. -/
def knows (c : Cache) (ticker : String) : Bool := c.any (·.1.1 == ticker)

/-- The cache without the bars under a key, and whether there were any. -/
def invalidate (c : Cache) (key : Key) : Bool × Cache := ((c.get? key).isSome, c.erase key)

end Cache

/-- A source that asks a cache first. -/
def PriceSource.cached {σ : Type} (source : PriceSource σ) : PriceSource (Cache × σ) where
  resolves s ticker := Cache.knows s.1 ticker || source.resolves s.2 ticker
  fetch s ticker timeframe :=
    match s.1.get? (ticker, timeframe) with
    | some bars => (.ok bars, s)
    | none =>
      match source.fetch s.2 ticker timeframe with
      | (.ok bars, next) => (.ok bars, (s.1.put (ticker, timeframe) bars, next))
      | (.error failure, next) => (.error failure, (s.1, next))

end Backtest
