import Backtest.Proofs.Blocks
import Backtest.Proofs.Double
import Backtest.Proofs.Extension

/-!
# Crossings last one bar

A crossing looks at two bars: at the second one the left side is beyond the right side, and at the first one
it was not. If it holds at a bar, the left side is beyond there, so it cannot hold at the next bar
(`Condition.holdsAt_succ_of_crossing`). A rule all of whose conditions must hold, one of them a crossing,
therefore never fires on two bars in a row (`Isolated`), in the window as well, which is a piece of the
history (`Window.cut_isInfix`).

Every block of such a signal is one bar long. A position that is opened there is closed at the next bar, and
there is one, since no position is opened at the last bar: `Rule.runInOrder_crossing`.
-/

namespace Backtest

/-! ## Signals that fire on single bars -/

/-- A signal that does not fire on two bars in a row. -/
def Isolated (signal : List Bool) : Prop :=
  ∀ i, ¬ (signal[i]? = some true ∧ signal[i + 1]? = some true)

/-- A piece of such a signal is one. -/
theorem Isolated.of_isInfix {piece signal : List Bool} (h : Isolated signal) (hp : piece <:+: signal) :
    Isolated piece := by
  obtain ⟨front, back, rfl⟩ := hp
  have hshift : ∀ i, piece[i]? = some true → (front ++ piece ++ back)[front.length + i]? = some true := by
    intro i hi
    obtain ⟨hlt, -⟩ := List.getElem?_eq_some_iff.mp hi
    rw [List.append_assoc, List.getElem?_append_right (Nat.le_add_right ..), Nat.add_sub_cancel_left,
      List.getElem?_append_left hlt, hi]
  rintro i ⟨hnow, hnext⟩
  exact h (front.length + i) ⟨hshift i hnow, hshift (i + 1) hnext⟩

/-- A block of such a signal is one bar long. -/
theorem Isolated.block {signal : List Bool} {first stop : Nat} (h : Isolated signal)
    (hb : Block signal first stop) : stop = first + 1 := by
  have hlt := hb.nonempty
  by_contra hlong
  exact h first ⟨hb.fires first le_rfl hlt, hb.fires (first + 1) (by omega) (by omega)⟩

/-- A position that is opened in a block of one bar is closed at the bar behind it. -/
theorem Isolated.span {α : Type} [Scalar α] {bars : List (Bar α)} {signal : List Bool} {first stop : Nat}
    {s : Span} (h : Isolated signal) (hb : Block signal first stop) (hs : s.InBlock bars first stop) :
    s = ⟨s.entry, s.entry + 1, .signal⟩ := by
  have hstop := h.block hb
  obtain ⟨hle, hlt⟩ := hs.inside
  have hmore : s.entry + 1 < bars.length := hs.canEnter.1
  obtain ⟨entry, exit, reason⟩ := s
  rcases hs.closed with ⟨_, hexit, hreason⟩ | ⟨hend, _, _⟩
  · simp only at hexit hreason hle hlt ⊢
    rw [hexit, hreason, show stop = entry + 1 by omega]
  · simp only at hmore hle
    omega

/-- The trades of such a signal. -/
theorem Isolated.trades {α : Type} [Scalar α] {d : Direction} {bars : List (Bar α)} {signal : List Bool}
    {trades : List (Trade α)} (h : Isolated signal) (hlen : signal.length = bars.length)
    (hsim : simulate d bars signal = .ok trades) :
    ∀ t ∈ trades, ∃ i, Span.IsTrade d bars ⟨i, i + 1, .signal⟩ t := by
  obtain ⟨spans, hspans⟩ := exists_tradesOfSpans hlen hsim
  obtain ⟨hlength, hget⟩ := List.forall₂_iff_get.mp hspans.isTrade
  intro t ht
  obtain ⟨k, hk, rfl⟩ := List.getElem_of_mem ht
  have hk' : k < spans.length := hlength ▸ hk
  obtain ⟨first, stop, hb, hs⟩ := (hspans.isSpan _ (List.getElem_mem hk')).exists_block hlen
  refine ⟨spans[k].entry, ?_⟩
  rw [← h.span hb hs]
  exact hget k hk' hk

/-! ## Crossings -/

/-- What a crossing asks of a bar is what it denies of the bar before. -/
theorem Operator.comparesBefore_of_compares {o : Operator} (ho : o.isCrossing = true) {l r : Float}
    (h : o.compares l r = true) : o.comparesBefore l r = false := by
  cases o with
  | crossesAbove =>
    have hlt : r < l := of_decide_eq_true h
    exact decide_eq_false fun hle => Decimal.not_lt_of_le hle hlt
  | crossesBelow =>
    have hlt : l < r := of_decide_eq_true h
    exact decide_eq_false fun hle => Decimal.not_lt_of_le hle hlt
  | less | greater | lessEqual | greaterEqual | equal => cases ho

/-- A crossing that holds at a bar does not hold at the next one. -/
theorem Condition.holdsAt_succ_of_crossing {c : Condition Float} (hc : c.operator.isCrossing = true)
    {table : Indicator.Table Float} {bars : List (Bar Float)} {i : Nat} (h : c.holdsAt table bars i = true) :
    c.holdsAt table bars (i + 1) = false := by
  have hnow : c.testAt table bars i c.operator.compares = true := (Bool.and_eq_true_iff.mp h).1
  have hbefore : c.testAt table bars i c.operator.comparesBefore = false := by
    rw [testAt] at hnow ⊢
    cases hl : c.left.valueAt table bars i with
    | none => rfl
    | some l =>
      cases hr : c.right.valueAt table bars i with
      | none => rfl
      | some r =>
        simp only [hl, hr] at hnow
        exact Operator.comparesBefore_of_compares hc hnow
  rw [holdsAt, hc, hbefore]
  exact Bool.and_false _

/-- A rule that asks for a crossing does not fire on two bars in a row. -/
theorem Rule.isolated_signal {r : Rule Float} (hall : r.combination = .all)
    (hcross : ∃ c ∈ r.conditions, c.operator.isCrossing = true) (table : Indicator.Table Float)
    (bars : List (Bar Float)) : Isolated (r.signal table bars) := by
  obtain ⟨c, hc, hcrossing⟩ := hcross
  have hfires : ∀ i, (r.signal table bars)[i]? = some true → c.holdsAt table bars i = true := by
    intro i hi
    rw [r.signal_eq (List.ne_nil_of_mem hc), List.getElem?_map, Option.map_eq_some_iff] at hi
    obtain ⟨j, hj, hbits⟩ := hi
    obtain rfl : i = j := (List.getElem?_eq_some_iff.mp hj).2 ▸ (List.getElem_range _).symm
    rw [hall, Combination.combine, List.all_eq_true] at hbits
    exact hbits _ (List.mem_map_of_mem hc)
  rintro i ⟨hnow, hnext⟩
  have hquiet := Condition.holdsAt_succ_of_crossing hcrossing (hfires i hnow)
  rw [hfires (i + 1) hnext] at hquiet
  cases hquiet

/-- What lies in a window is a piece of the whole. -/
theorem Window.cut_isInfix {β : Type} (w : Window) (date : β → Date) (xs : List β) :
    w.cut date xs <:+: xs :=
  (List.dropWhile_suffix _).isInfix.trans (List.takeWhile_prefix _).isInfix

/-- **A crossing strategy is in the market for one bar at a time.** If all conditions of a rule must hold and
one of them is a crossing, then the signal of a run never fires on two bars in a row, and every trade is
closed by the signal on the bar of the window right behind its entry; so none is closed because the bars
ended. -/
theorem Rule.runInOrder_crossing {order : Indicator.Table Float → List (Indicator.Series Float)}
    {r : Rule Float} {bars : List (Bar Float)} {w : Window} {run : Run Float} (hall : r.combination = .all)
    (hcross : ∃ c ∈ r.conditions, c.operator.isCrossing = true)
    (hrun : r.runInOrder order bars w = .ok run) :
    (∀ i, ¬ (run.signal[i]? = some true ∧ run.signal[i + 1]? = some true)) ∧
      ∀ t ∈ run.trades, t.reason = .signal ∧
        ∃ i, Span.IsTrade r.direction run.window ⟨i, i + 1, .signal⟩ t := by
  obtain ⟨marked, hmarked, -, -, -, -, trades, hsim, rfl⟩ := runInOrder_eq_ok_iff.mp hrun
  have hisolated : Isolated (marked.map (·.2)) := by
    refine (isolated_signal hall hcross (Indicator.table r.indicators bars) bars).of_isInfix ?_
    have hpiece := (w.cut_isInfix (·.1.date)
      (bars.zip (r.signal (Indicator.table r.indicators bars) bars))).map Prod.snd
    obtain ⟨c, hc, -⟩ := hcross
    rwa [← hmarked, List.map_snd_zip] at hpiece
    rw [r.signal_eq (List.ne_nil_of_mem hc), List.length_map, List.length_range]
  refine ⟨hisolated, fun t ht => ?_⟩
  obtain ⟨i, hi⟩ := hisolated.trades (by rw [List.length_map, List.length_map]) hsim t ht
  refine ⟨?_, i, hi⟩
  obtain ⟨entry, exit, -, -, rfl⟩ := hi
  rfl

/-- Buying when the price comes to stand above a number. -/
def Rule.priceAbove (v : Float) : Rule Float :=
  ⟨"ACME", .long, [⟨.source .price, .crossesAbove, .constant v⟩, ⟨.source .price, .less, .constant 5⟩], .all⟩

/-- The price stays above for two bars, falls back and rises again; it is bought twice, for one bar each. -/
theorem Rule.runInOrder_crossing_flatHistory :
    (priceAbove 2).combination = .all ∧
      (∃ c ∈ (priceAbove 2).conditions, c.operator.isCrossing = true) ∧
      ∃ run : Run Float,
        (priceAbove 2).runInOrder id (Bar.flatHistory [1, 3, 4, 2, 3, 6, 4]) .everything = .ok run ∧
        run.trades.map (·.exitDate) = [⟨2⟩, ⟨5⟩] ∧
        (∀ i, ¬ (run.signal[i]? = some true ∧ run.signal[i + 1]? = some true)) ∧
        ∀ t ∈ run.trades, t.reason = .signal ∧
          ∃ i, Span.IsTrade (priceAbove 2).direction run.window ⟨i, i + 1, .signal⟩ t := by
  have hcross : ∃ c ∈ (priceAbove 2).conditions, c.operator.isCrossing = true :=
    ⟨_, List.mem_cons_self, rfl⟩
  obtain ⟨run, hrun, hexits⟩ : ∃ run : Run Float,
      (priceAbove 2).runInOrder id (Bar.flatHistory [1, 3, 4, 2, 3, 6, 4]) .everything = .ok run ∧
      run.trades.map (·.exitDate) = [⟨2⟩, ⟨5⟩] := ⟨_, rfl, rfl⟩
  obtain ⟨hsignal, htrades⟩ := runInOrder_crossing rfl hcross hrun
  exact ⟨rfl, hcross, run, hrun, hexits, hsignal, htrades⟩

end Backtest
