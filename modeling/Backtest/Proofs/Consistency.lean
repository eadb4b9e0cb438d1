import Backtest.Proofs.Blocks
import Backtest.Proofs.Checked.Performance
import Backtest.Proofs.Equity
import Backtest.Report

/-!
# The parts of a report agree

A report is put together from parts that are computed one by one: the prices and the equity curve from the
bars of the window, the marks from the trades, the counts from the returns. `Report.ofHistory_isConsistent`
says that they fit whenever there is a report.

The marks stand in the order of the bars because the trades are those of spans (`TradesOfSpans`): a span
ends behind its beginning, and the next one begins behind its end, so that a position is never opened on the
bar on which one was closed. And a trade that is forced ends at the last bar, so that no trade follows it.
-/

namespace Backtest

/-! ## Trades along the bars -/

/-- Bars whose dates ascend are in the order of their indices. -/
theorem Bar.date_lt {bars : List (Bar Float)} (hdates : (bars.map (·.date)).Pairwise (· < ·)) {i j : Nat}
    {b c : Bar Float} (hb : bars[i]? = some b) (hc : bars[j]? = some c) (h : i < j) : b.date < c.date := by
  obtain ⟨hi, rfl⟩ := List.getElem?_eq_some_iff.mp hb
  obtain ⟨hj, rfl⟩ := List.getElem?_eq_some_iff.mp hc
  exact List.pairwise_iff_getElem.mp (List.pairwise_map.mp hdates) i j hi hj h

/-- What holds between the elements of one list holds between those of a list that goes along with it. -/
theorem pairwise_of_forall₂ {β γ : Type} {R : β → γ → Prop} {S : β → β → Prop} {T : γ → γ → Prop}
    (hstep : ∀ {b c b' c'}, R b c → R b' c' → S b b' → T c c') {bs : List β} {cs : List γ}
    (h : List.Forall₂ R bs cs) (hS : bs.Pairwise S) : cs.Pairwise T := by
  induction h with
  | nil => exact .nil
  | @cons b c bs cs hbc hrest ih =>
    obtain ⟨hfirst, hS⟩ := List.pairwise_cons.mp hS
    refine List.pairwise_cons.mpr ⟨fun c' hc' => ?_, ih hS⟩
    obtain ⟨i, hi, rfl⟩ := List.getElem_of_mem hc'
    have hi' : i < bs.length := hrest.length_eq ▸ hi
    exact hstep hbc (hrest.get hi' hi) (hfirst _ (List.getElem_mem hi'))

section

variable {d : Direction} {bars : List (Bar Float)} {s s' : Span} {t t' : Trade Float}

/-- A span that ends behind its beginning is a trade that ends after its beginning. -/
theorem Span.IsTrade.entry_lt_exit (hdates : (bars.map (·.date)).Pairwise (· < ·)) (h : s.IsTrade d bars t)
    (hlt : s.entry < s.exit) : t.entryDate < t.exitDate := by
  obtain ⟨entry, exit, hentry, hexit, rfl⟩ := h
  exact Bar.date_lt hdates hentry hexit hlt

theorem Span.IsTrade.exit_lt_entry (hdates : (bars.map (·.date)).Pairwise (· < ·)) (h : s.IsTrade d bars t)
    (h' : s'.IsTrade d bars t') (hlt : s.exit < s'.entry) : t.exitDate < t'.entryDate := by
  obtain ⟨-, exit, -, hexit, rfl⟩ := h
  obtain ⟨entry, -, hentry, -, rfl⟩ := h'
  exact Bar.date_lt hdates hexit hentry hlt

/-- The marks of a trade are closes. -/
theorem Span.IsTrade.markers_mem (h : s.IsTrade d bars t) :
    ∀ m ∈ t.markers, (m.date, m.price) ∈ bars.map fun b => (b.date, b.close) := by
  obtain ⟨entry, exit, hentry, hexit, rfl⟩ := h
  intro m hm
  rcases List.mem_pair.mp hm with rfl | rfl
  · exact List.mem_map_of_mem (List.mem_of_getElem? hentry)
  · exact List.mem_map_of_mem (List.mem_of_getElem? hexit)

end

/-! ## Marks -/

/-- Two marks stand for each trade, in the order of the trades. -/
theorem getElem?_markers (trades : List (Trade Float)) (i : Nat) :
    (trades.flatMap Trade.markers)[2 * i]? = trades[i]?.bind (·.markers[0]?) ∧
      (trades.flatMap Trade.markers)[2 * i + 1]? = trades[i]?.bind (·.markers[1]?) := by
  induction trades generalizing i with
  | nil => exact ⟨rfl, rfl⟩
  | cons t trades ih =>
    cases i with
    | zero => exact ⟨rfl, rfl⟩
    | succ i => exact ih i

theorem length_markers (trades : List (Trade Float)) :
    (trades.flatMap Trade.markers).length = 2 * trades.length := by
  induction trades with
  | nil => rfl
  | cons t trades ih =>
    rw [List.flatMap_cons, List.length_append, ih, List.length_cons]
    show 2 + 2 * trades.length = _
    omega

section

variable {d : Direction} {bars : List (Bar Float)} {spans : List Span} {trades : List (Trade Float)}

/-- The trades of spans that lie one behind the other are in the order of time. -/
theorem trades_ordered (h : List.Forall₂ (Span.IsTrade d bars) spans trades)
    (hdates : (bars.map (·.date)).Pairwise (· < ·)) (hforward : ∀ s ∈ spans, s.entry < s.exit)
    (hordered : spans.Pairwise fun s t => s.exit < t.entry) :
    (∀ t ∈ trades, t.entryDate < t.exitDate) ∧ trades.Pairwise fun t t' => t.exitDate < t'.entryDate := by
  refine ⟨fun t ht => ?_, pairwise_of_forall₂ (fun hs hs' hlt => hs.exit_lt_entry hdates hs' hlt) h hordered⟩
  obtain ⟨i, hi, rfl⟩ := List.getElem_of_mem ht
  have hi' : i < spans.length := h.length_eq ▸ hi
  exact (h.get hi' hi).entry_lt_exit hdates (hforward _ (List.getElem_mem hi'))

end

/-- The marks of trades in the order of time are in the order of time. -/
theorem markers_ordered {trades : List (Trade Float)} (hinside : ∀ t ∈ trades, t.entryDate < t.exitDate)
    (hbetween : trades.Pairwise fun t t' => t.exitDate < t'.entryDate) :
    ((trades.flatMap Trade.markers).map (·.date)).Pairwise (· < ·) := by
  rw [List.pairwise_map, List.pairwise_flatMap]
  refine ⟨fun t ht => ?_, hbetween.imp_of_mem fun {t t'} ht ht' hlt m hm m' hm' => ?_⟩
  · rw [Trade.markers, List.pairwise_pair]
    exact hinside t ht
  · rcases List.mem_pair.mp hm with rfl | rfl <;> rcases List.mem_pair.mp hm' with rfl | rfl
    · exact Date.lt_trans (hinside t ht) hlt
    · exact Date.lt_trans (hinside t ht) (Date.lt_trans hlt (hinside t' ht'))
    · exact hlt
    · exact Date.lt_trans hlt (hinside t' ht')

/-- A trade that is closed because the bars ended is the last one, and ends at the last bar. -/
theorem TradesOfSpans.forced {d : Direction} {bars : List (Bar Float)} {signal : List Bool}
    {spans : List Span} {trades : List (Trade Float)} (h : TradesOfSpans d bars signal spans trades)
    {i : Nat} {t : Trade Float} (ht : trades[i]? = some t) (hforced : t.reason = .endOfData) :
    i + 1 = trades.length ∧ bars.getLast?.map (·.date) = some t.exitDate := by
  obtain ⟨hi, rfl⟩ := List.getElem?_eq_some_iff.mp ht
  have hlength := h.isTrade.length_eq
  have hi' : i < spans.length := hlength ▸ hi
  obtain ⟨entry, exit, -, hexit, heq⟩ := h.isTrade.get hi' hi
  rw [List.get_eq_getElem, List.get_eq_getElem] at heq
  rw [heq] at hforced ⊢
  constructor
  · by_contra hmore
    have hfront : spans[i] ∈ spans.dropLast := by
      rw [List.mem_iff_getElem]
      refine ⟨i, ?_, List.getElem_dropLast _⟩
      rw [List.length_dropLast, hlength]
      omega
    rw [reason_of_ordered h.isSpan h.ordered _ hfront] at hforced
    cases hforced
  · rcases (h.isSpan _ (List.getElem_mem hi')).closed with ⟨-, hreason⟩ | ⟨-, hlast, -⟩
    · rw [hreason] at hforced
      cases hforced
    · have hplace : spans[i].exit = bars.length - 1 := by omega
      rw [List.get_eq_getElem, hplace] at hexit
      rw [List.getLast?_eq_getElem?, hexit]
      rfl

/-! ## Reports -/

/-- How a trade of a report is marked on its chart. -/
structure Report.IsMarked (r : Report) (i : Nat) (t : Trade Float) : Prop where
  entry : r.chart.markers[2 * i]? = some ⟨t.entryDate, t.entryPrice, false, t.direction, false⟩
  exit : ∃ forced, r.chart.markers[2 * i + 1]? = some ⟨t.exitDate, t.exitPrice, true, t.direction, forced⟩ ∧
    (forced = true ↔ t.reason = .endOfData)
  /-- The mark of a forced exit is the last one, and lies on the last date of the prices. -/
  last : t.reason = .endOfData →
    2 * i + 2 = r.chart.markers.length ∧ r.chart.prices.getLast?.map (·.1) = some t.exitDate

/-- What the parts of a report have to do with each other, and with the run that is reported. -/
structure Report.IsConsistent (run : Run Float) (r : Report) : Prop where
  /-- The number of trades that is given is the length of the log that is given. -/
  count : ∃ log, r.toJson.get? "trade_log" = some (.arr log) ∧ log.length = r.trades.length ∧
    r.toJson.get? "trades" = some (.ofNat log.length)
  /-- Every trade wins, loses or does neither, and the statistics count all three. -/
  split : r.statistics.winning + r.statistics.losing + r.statistics.breakeven = r.trades.length
  breakeven : r.statistics.breakeven = r.trades.countP fun t => !t.isWin && !t.isLoss
  /-- The prices are the closes of the window. -/
  prices : r.chart.prices = run.window.map fun b => (b.date, b.close)
  equity : r.chart.equity.map (·.date) = r.chart.prices.map (·.1)
  ascending : (r.chart.prices.map (·.1)).Pairwise (· < ·)
  twice : r.chart.markers.length = 2 * r.trades.length
  marked : ∀ i t, r.trades[i]? = some t → r.IsMarked i t
  ordered : (r.chart.markers.map (·.date)).Pairwise (· < ·)
  onPrices : ∀ m ∈ r.chart.markers, (m.date, m.price) ∈ r.chart.prices

/-- No trade both wins and loses. -/
theorem Trade.isWin_of_isLoss {t : Trade Float} (h : t.isLoss = true) : t.isWin = false :=
  decide_eq_false (Decimal.not_lt_of_le (Decimal.le_of_lt (of_decide_eq_true h)))

/-- What neither wins nor loses is what is left of all trades. -/
theorem countP_breakeven (trades : List (Trade Float)) :
    trades.countP (fun t => !t.isWin && !t.isLoss) =
      trades.length - trades.countP (·.isWin) - trades.countP (·.isLoss) := by
  induction trades with
  | nil => rfl
  | cons t trades ih =>
    have hle := Checked.countP_add_le trades
    simp only [List.countP_cons, List.length_cons, ih]
    cases hloss : t.isLoss with
    | true =>
      simp only [Trade.isWin_of_isLoss hloss, Bool.not_true, Bool.and_false, Bool.false_eq_true, if_true, if_false]
      omega
    | false =>
      cases t.isWin with
      | true =>
        simp only [Bool.not_true, Bool.false_and, Bool.false_eq_true, if_true, if_false]
        omega
      | false =>
        simp only [Bool.not_false, Bool.and_self, Bool.false_eq_true, if_true, if_false]
        omega

theorem countP_sum (trades : List (Trade Float)) :
    trades.countP (·.isWin) + trades.countP (·.isLoss) +
      (trades.length - trades.countP (·.isWin) - trades.countP (·.isLoss)) = trades.length := by
  have hle := Checked.countP_add_le trades
  omega

/-- The trades of a run are in the order of time. -/
theorem Rule.runInOrder_trades {order : Indicator.Table Float → List (Indicator.Series Float)}
    {r : Rule Float} {bars : List (Bar Float)} {w : Window} {run : Run Float}
    (hrun : r.runInOrder order bars w = .ok run) :
    (∀ t ∈ run.trades, t.entryDate < t.exitDate) ∧
      run.trades.Pairwise fun t t' => t.exitDate < t'.entryDate := by
  obtain ⟨-, hdates, -⟩ := runInOrder_dates hrun
  obtain ⟨marked, -, -, -, -, -, trades, hsim, rfl⟩ := runInOrder_eq_ok_iff.mp hrun
  obtain ⟨spans, hspans⟩ := exists_tradesOfSpans (by rw [List.length_map, List.length_map]) hsim
  exact trades_ordered hspans.isTrade hdates (fun s hs => (hspans.isSpan s hs).forward) hspans.ordered

/-- The report of a run is consistent, in whatever order the indicators were checked. -/
theorem Report.isConsistent_ofRun {order : Indicator.Table Float → List (Indicator.Series Float)}
    {rule : Rule Float} {bars : List (Bar Float)} {w : Window} {run : Run Float}
    (hrun : rule.runInOrder order bars w = .ok run) : (ofRun rule run).IsConsistent run := by
  obtain ⟨-, hdates, -⟩ := Rule.runInOrder_dates hrun
  obtain ⟨hinside, hbetween⟩ := Rule.runInOrder_trades hrun
  have hprices : (ofRun rule run).chart.prices.map (·.1) = run.window.map (·.date) := List.map_map ..
  have hequity : (ofRun rule run).chart.equity.map (·.date) = (ofRun rule run).chart.prices.map (·.1) :=
    (Rule.dates_equity hrun).trans hprices.symm
  rw [← hprices] at hdates
  obtain ⟨marked, -, -, -, -, -, trades, hsim, rfl⟩ := Rule.runInOrder_eq_ok_iff.mp hrun
  obtain ⟨spans, hspans⟩ := exists_tradesOfSpans (by rw [List.length_map, List.length_map]) hsim
  refine ⟨⟨_, rfl, List.length_map .., ?_⟩, countP_sum trades, (countP_breakeven trades).symm, rfl, hequity,
    hdates, length_markers trades, fun i t ht => ?_,
    markers_ordered hinside hbetween, ?_⟩
  · rw [List.length_map]
    rfl
  · obtain ⟨hentry, hexit⟩ := getElem?_markers trades i
    have ht' : trades[i]? = some t := ht
    rw [ht'] at hentry hexit
    refine ⟨hentry, ⟨t.isForced, hexit, decide_eq_true_iff⟩, fun hforced => ?_⟩
    obtain ⟨hlast, hdate⟩ := hspans.forced ht hforced
    refine ⟨?_, ?_⟩
    · show 2 * i + 2 = (trades.flatMap Trade.markers).length
      rw [length_markers]
      omega
    · show ((marked.map (·.1)).map fun b => (b.date, b.close)).getLast?.map (·.1) = some t.exitDate
      rw [List.getLast?_map, Option.map_map]
      exact hdate
  · intro m hm
    obtain ⟨t, ht, hmt⟩ := List.mem_flatMap.mp hm
    obtain ⟨i, hi, rfl⟩ := List.getElem_of_mem ht
    exact (hspans.isTrade.get (hspans.isTrade.length_eq ▸ hi) hi).markers_mem m hmt

theorem Report.ofHistory_eq_ok_iff {rule : Rule Float} {bars : List (Bar Float)} {w : Window} {r : Report} :
    ofHistory rule bars w = .ok r ↔ ∃ run, rule.run bars w = .ok run ∧ r = ofRun rule run := by
  rw [ofHistory]
  cases rule.run bars w with
  | error fault => simp
  | ok run => simp [eq_comm]

/-- **The parts of a report agree** with each other and with the run that is reported: as many trades are
counted as are logged, each of them wins, loses or does neither; the prices and the equity curve go along the
bars of the window, on dates that ascend; each trade is marked at its entry and its exit, in the order of the
log and of time, at closes of the chart; and exactly the trades that are closed because the bars ended are
marked as forced, at the end of the marks and of the prices. -/
theorem Report.ofHistory_isConsistent {rule : Rule Float} {bars : List (Bar Float)} {w : Window} {r : Report}
    (h : ofHistory rule bars w = .ok r) :
    ∃ run, rule.run bars w = .ok run ∧ r = ofRun rule run ∧ r.IsConsistent run := by
  obtain ⟨run, hrun, rfl⟩ := ofHistory_eq_ok_iff.mp h
  exact ⟨run, hrun, rfl, isConsistent_ofRun hrun⟩

/-- A report with a trade that the signal closed and one that was closed because the bars ended. -/
theorem Report.ofHistory_isConsistent_flatHistory :
    ∃ r, ofHistory (Rule.meanAbove 2) (Bar.flatHistory [1, 3, 4, 1, 3, 5, 6]) .everything = .ok r ∧
      r.trades.map (·.reason) = [.signal, .endOfData] ∧
      ∃ run, (Rule.meanAbove 2).run (Bar.flatHistory [1, 3, 4, 1, 3, 5, 6]) .everything = .ok run ∧
        r = ofRun (Rule.meanAbove 2) run ∧ r.IsConsistent run := by
  obtain ⟨r, hr, hreasons⟩ : ∃ r,
      ofHistory (Rule.meanAbove 2) (Bar.flatHistory [1, 3, 4, 1, 3, 5, 6]) .everything = .ok r ∧
      r.trades.map (·.reason) = [.signal, .endOfData] := ⟨_, rfl, rfl⟩
  exact ⟨r, hr, hreasons, ofHistory_isConsistent hr⟩

end Backtest
