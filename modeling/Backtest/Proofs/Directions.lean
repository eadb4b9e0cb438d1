import Backtest.Performance
import Backtest.Proofs.ConditionSets
import Backtest.Proofs.FiniteReports
import Backtest.Proofs.Opposite

/-!
# Long and short

The direction of a rule decides nothing but the sign of the returns. The two formulas for a return differ in how
they are written, and yield opposite numbers for every ratio of prices, however they are rounded
(`Direction.opposite_returnPct`). So a holding is closed in both directions or in none, and a run of a rule taken
short makes the trades of the run taken long with the returns negated: what won loses, and what lost wins.

`Rule.runInOrder_directions` says this for all histories and windows.
-/

namespace Backtest

open Decimal (Opposite)
open Indicator (Table Series IsOrder)

/-! ## Returns -/

theorem Direction.opposite_returnPct (ratio : Float) :
    Opposite (Direction.long.returnPct ratio) (Direction.short.returnPct ratio) :=
  (Decimal.opposite_sub ratio ((1 : Nat) : Float)).mul ((100 : Nat) : Float)

theorem Decimal.Opposite.sameNumber_neg {x y : Float} (h : Opposite x y) (hx : x.isFinite = true) :
    SameNumber y (-x) := by
  have hy : y.isFinite = true := h.isFinite_eq ▸ hx
  have hneg : (-x).isFinite = true := (isFinite_neg x).trans hx
  have hsame : toRat y = toRat (-x) := h.toRat_eq.trans (toRat_neg hx).symm
  exact .inr ⟨(le_iff_toRat hy hneg).mpr hsame.le, (le_iff_toRat hneg hy).mpr hsame.ge⟩

theorem Holding.hasFiniteReturn_directions (h : Holding Float) :
    (h.trade .long).HasFiniteReturn ↔ (h.trade .short).HasFiniteReturn := by
  have heq := (Direction.opposite_returnPct (h.exit.close / h.entry.close)).isFinite_eq
  exact ⟨fun hlong => heq.symm.trans hlong, fun hshort => heq.trans hshort⟩

/-! ## Trades -/

/-- A long trade, and the short trade over the same bars with the return negated. -/
structure Trade.Mirrors (long short : Trade Float) : Prop where
  isLong : long.direction = .long
  isShort : short.direction = .short
  entryDate : short.entryDate = long.entryDate
  entryPrice : short.entryPrice = long.entryPrice
  exitDate : short.exitDate = long.exitDate
  exitPrice : short.exitPrice = long.exitPrice
  reason : short.reason = long.reason
  returnPct : SameNumber short.returnPct (-long.returnPct)
  finite : long.returnPct.isFinite = true

theorem Holding.mirrors (h : Holding Float) (hfinite : (h.trade .long).HasFiniteReturn) :
    (h.trade .long).Mirrors (h.trade .short) where
  isLong := rfl
  isShort := rfl
  entryDate := rfl
  entryPrice := rfl
  exitDate := rfl
  exitPrice := rfl
  reason := rfl
  returnPct := (Direction.opposite_returnPct _).sameNumber_neg hfinite
  finite := hfinite

/-- A number is gained where its negation is lost. -/
theorem SameNumber.sign_neg {x y : Float} (h : SameNumber y (-x)) (hx : x.isFinite = true) :
    (((0 : Nat) : Float) < y ↔ x < ((0 : Nat) : Float)) ∧ (y < ((0 : Nat) : Float) ↔ ((0 : Nat) : Float) < x) := by
  have hneg : (-x).isFinite = true := (Decimal.isFinite_neg x).trans hx
  have hzero : SameNumber ((0 : Nat) : Float) ((0 : Nat) : Float) := .inl rfl
  constructor
  · rw [hzero.lt_iff h, Decimal.lt_iff_toRat toRat_zero.1 hneg, Decimal.lt_iff_toRat hx toRat_zero.1,
      Decimal.toRat_neg hx, toRat_zero.2, neg_pos]
  · rw [h.lt_iff hzero, Decimal.lt_iff_toRat hneg toRat_zero.1, Decimal.lt_iff_toRat toRat_zero.1 hx,
      Decimal.toRat_neg hx, toRat_zero.2, neg_lt_zero]

namespace Trade.Mirrors

variable {long short : Trade Float} (h : long.Mirrors short)

include h

/-- The short trade wins where the long one loses. -/
theorem isWin_eq : short.isWin = long.isLoss := decide_eq_decide.mpr (h.returnPct.sign_neg h.finite).1

/-- The short trade loses where the long one wins. -/
theorem isLoss_eq : short.isLoss = long.isWin := decide_eq_decide.mpr (h.returnPct.sign_neg h.finite).2

end Trade.Mirrors

/-- Holdings are closed in both directions with mirrored trades, or fail in both directions at the same
holding. -/
theorem mapM_close_directions (hs : List (Holding Float)) :
    (∃ longs shorts, hs.mapM (Holding.close .long) = .ok longs ∧ hs.mapM (Holding.close .short) = .ok shorts ∧
        List.Forall₂ Trade.Mirrors longs shorts) ∨
      ∃ bad, hs.mapM (Holding.close .long) = .error bad ∧ hs.mapM (Holding.close .short) = .error bad := by
  induction hs with
  | nil => exact .inl ⟨[], [], rfl, rfl, .nil⟩
  | cons h hs ih =>
    rw [List.mapM_cons, List.mapM_cons]
    by_cases hlong : (h.trade .long).HasFiniteReturn
    · rw [Holding.close_of_finite hlong, Holding.close_of_finite (h.hasFiniteReturn_directions.mp hlong)]
      rcases ih with ⟨longs, shorts, hlongs, hshorts, hmirrors⟩ | ⟨bad, hlongs, hshorts⟩
      · rw [hlongs, hshorts]
        exact .inl ⟨_, _, rfl, rfl, .cons (h.mirrors hlong) hmirrors⟩
      · rw [hlongs, hshorts]
        exact .inr ⟨bad, rfl, rfl⟩
    · have hshort : ¬ (h.trade .short).HasFiniteReturn := fun hs => hlong (h.hasFiniteReturn_directions.mpr hs)
      rw [Holding.close_of_not_finite hlong, Holding.close_of_not_finite hshort]
      exact .inr ⟨_, rfl, rfl⟩

/-! ## Runs -/

/-- The rule taken in a direction. -/
def Rule.taking (d : Direction) (r : Rule Float) : Rule Float := { r with direction := d }

namespace Run

/-- Two runs over the same bars, under the same signal, with mirrored trades. -/
structure Mirrors (long short : Run Float) : Prop where
  ticker : short.ticker = long.ticker
  window : short.window = long.window
  signal : short.signal = long.signal
  trades : List.Forall₂ Trade.Mirrors long.trades short.trades

/-- Two runs that succeed and mirror each other, or are refused for the same kind of reason. -/
inductive Mirrored : Except (Fault Float) (Run Float) → Except (Fault Float) (Run Float) → Prop where
  | ok {long short : Run Float} (mirrors : long.Mirrors short) : Mirrored (.ok long) (.ok short)
  | error {fault fault' : Fault Float} (kind : fault.SameKind fault') : Mirrored (.error fault) (.error fault')

/-- The counts of winning and losing trades are exchanged, and as many trades break even. -/
structure CountsExchanged (long short : Statistics Float) : Prop where
  winning : short.winning = long.losing
  losing : short.losing = long.winning
  breakeven : short.breakeven = long.breakeven

theorem countP_of_mirrors {longs shorts : List (Trade Float)} (h : List.Forall₂ Trade.Mirrors longs shorts) :
    shorts.countP (·.isWin) = longs.countP (·.isLoss) ∧ shorts.countP (·.isLoss) = longs.countP (·.isWin) := by
  induction h with
  | nil => exact ⟨rfl, rfl⟩
  | cons hmirrors _ ih =>
    simp only [List.countP_cons, hmirrors.isWin_eq, hmirrors.isLoss_eq, ih.1, ih.2, and_self]

theorem Mirrors.countsExchanged {long short : Run Float} (h : long.Mirrors short) :
    CountsExchanged (Performance.ofRun long).statistics (Performance.ofRun short).statistics := by
  obtain ⟨hwinning, hlosing⟩ := countP_of_mirrors h.trades
  refine ⟨hwinning, hlosing, ?_⟩
  show short.trades.length - short.trades.countP (·.isWin) - short.trades.countP (·.isLoss) =
    long.trades.length - long.trades.countP (·.isWin) - long.trades.countP (·.isLoss)
  rw [hwinning, hlosing, h.trades.length_eq, Nat.sub_right_comm]

end Run

namespace Rule

/-- A direction is asked for by the simulation alone: what is in front of it refuses the rule in all directions, or
leaves a window with a signal for all of them. -/
theorem runInOrder_simulates (order : Table Float → List (Series Float)) (r : Rule Float) (bars : List (Bar Float))
    (w : Window) :
    (∃ fault, ∀ d, (r.taking d).runInOrder order bars w = .error fault) ∨
      ∃ window signal, ∀ d, (r.taking d).runInOrder order bars w =
        match simulate d window signal with
        | .error bad => .error (.badReturn bad)
        | .ok trades => .ok ⟨r.ticker, window, signal, trades⟩ := by
  have hhistory : ∀ d, (r.taking d).checkHistory bars = r.checkHistory bars := fun _ => rfl
  have hindicators : ∀ d, (r.taking d).indicators = r.indicators := fun _ => rfl
  have hsignal : ∀ d t, (r.taking d).signal t bars = r.signal t bars := fun _ _ => rfl
  have hdirection : ∀ d, (r.taking d).direction = d := fun _ => rfl
  simp only [runInOrder, hhistory, hindicators, hsignal, hdirection]
  cases Bar.check bars with
  | error fault => exact .inl ⟨.badHistory fault, fun _ => rfl⟩
  | ok _ =>
    cases r.checkHistory bars with
    | error fault => exact .inl ⟨fault, fun _ => rfl⟩
    | ok _ =>
      cases checkFinite (order (Indicator.table r.indicators bars)) with
      | error fault => exact .inl ⟨fault, fun _ => rfl⟩
      | ok _ =>
        generalize w.cut (·.1.date) (bars.zip (r.signal (Indicator.table r.indicators bars) bars)) = marked
        cases marked.isEmpty with
        | true => exact .inl ⟨.emptyWindow w, fun _ => rfl⟩
        | false =>
          refine .inr ⟨marked.map (·.1), marked.map (·.2), fun d => ?_⟩
          cases simulate d (marked.map (·.1)) (marked.map (·.2)) with
          | error bad => rfl
          | ok trades => rfl

/-- With the series checked in one order, the two runs mirror each other or are refused with one fault. -/
theorem runInOrder_taking (order : Table Float → List (Series Float)) (r : Rule Float) (bars : List (Bar Float))
    (w : Window) :
    (∃ long short, (r.taking .long).runInOrder order bars w = .ok long ∧
        (r.taking .short).runInOrder order bars w = .ok short ∧ long.Mirrors short) ∨
      ∃ fault, (r.taking .long).runInOrder order bars w = .error fault ∧
        (r.taking .short).runInOrder order bars w = .error fault := by
  rcases runInOrder_simulates order r bars w with ⟨fault, hrefused⟩ | ⟨window, signal, hrun⟩
  · exact .inr ⟨fault, hrefused .long, hrefused .short⟩
  · rw [hrun .long, hrun .short, simulate, simulate]
    rcases mapM_close_directions (holdings window signal) with
      ⟨longs, shorts, hlongs, hshorts, hmirrors⟩ | ⟨bad, hlongs, hshorts⟩
    · rw [hlongs, hshorts]
      exact .inl ⟨_, _, rfl, rfl, rfl, rfl, rfl, hmirrors⟩
    · rw [hlongs, hshorts]
      exact .inr ⟨_, rfl, rfl⟩

/-- **Long and short mirror each other.** A rule taken long and the same rule taken short are run over every
history and in every window to the same end. Both runs succeed, with the same bars of the window, the same signal,
and the same trades but for the returns, which are negated; so the counts of winning and losing trades are
exchanged, and as many trades break even. Or both runs are refused for the same kind of reason. The series are
checked in an order of its own in each run. -/
theorem runInOrder_directions {order order' : Table Float → List (Series Float)} (ho : IsOrder order)
    (ho' : IsOrder order') (r : Rule Float) (bars : List (Bar Float)) (w : Window) :
    Run.Mirrored ((r.taking .long).runInOrder order bars w) ((r.taking .short).runInOrder order' bars w) ∧
      ∀ long short, (r.taking .long).runInOrder order bars w = .ok long →
        (r.taking .short).runInOrder order' bars w = .ok short →
          Run.CountsExchanged (Performance.ofRun long).statistics (Performance.ofRun short).statistics := by
  have hmirrored : Run.Mirrored ((r.taking .long).runInOrder order bars w)
      ((r.taking .short).runInOrder order' bars w) := by
    rcases runInOrder_eq_or_faults (r.taking .short) bars w ho ho' with
      hsame | ⟨fault, -, fault', -, herr, herr'⟩
    · rw [← hsame]
      rcases runInOrder_taking order r bars w with ⟨long, short, hlong, hshort, hmirrors⟩ | ⟨fault, hlong, hshort⟩
      · rw [hlong, hshort]
        exact .ok hmirrors
      · rw [hlong, hshort]
        exact .error (.refl fault)
    · rcases runInOrder_taking order r bars w with ⟨long, short, -, hshort, -⟩ | ⟨first, hlong, hshort⟩
      · rw [herr] at hshort
        cases hshort
      · rw [herr] at hshort
        cases hshort
        rw [hlong, herr']
        exact .error (.notFinite fault fault')
  refine ⟨hmirrored, fun long short hlong hshort => ?_⟩
  rw [hlong, hshort] at hmirrored
  cases hmirrored with
  | ok hmirrors => exact hmirrors.countsExchanged

/-- A loss that the signal ends and a gain that the last bar ends; taken short, a gain and a loss. -/
theorem runInOrder_directions_flatHistory :
    IsOrder (α := Float) id ∧ IsOrder (α := Float) List.reverse ∧
      ∃ long short : Run Float,
        ((buysStrength [.aboveMean]).taking .long).runInOrder id (Bar.flatHistory [4, 3, 5, 6, 2, 3, 4]) .everything =
          .ok long ∧
        ((buysStrength [.aboveMean]).taking .short).runInOrder List.reverse
          (Bar.flatHistory [4, 3, 5, 6, 2, 3, 4]) .everything = .ok short ∧
        long.trades.map (fun t => (t.isWin, t.isForced)) = [(false, false), (true, true)] ∧
        Run.Mirrored (.ok long) (.ok short) ∧
        Run.CountsExchanged (Performance.ofRun long).statistics (Performance.ofRun short).statistics := by
  obtain ⟨hmirrored, hcounts⟩ := runInOrder_directions Indicator.isOrder_id Indicator.isOrder_reverse
    (buysStrength [.aboveMean]) (Bar.flatHistory [4, 3, 5, 6, 2, 3, 4]) .everything
  exact ⟨Indicator.isOrder_id, Indicator.isOrder_reverse, _, _, rfl, rfl, by decide +kernel, hmirrored,
    hcounts _ _ rfl rfl⟩

end Rule

end Backtest
