import Backtest.Proofs.Causal
import Backtest.Proofs.Trades
import Backtest.Run

/-!
# Runs over longer histories

What a run says of a history, it says of every longer one as well. If bars come in behind a history,
then the window and the signal only grow, every trade that the signal closed stands as it stood, and a
trade that was closed because the bars ended is replaced by one with the same entry (`Extends`).

* Signals: whether a condition holds at a bar is decided by that bar, the one before, and the series
  there, which `causal_points` keeps (`Condition.holdsAt_append`).
* Windows: `Window.cut` of the longer history begins with the one of the shorter history, as long as the
  latter is not empty (`Window.cut_isPrefix`).
* Trades: `Settles` relates the holdings of the two, and is shown along the walk (`settles_holdingsFrom`).
-/

namespace Backtest

variable {α : Type} [Scalar α]

/-! ## Signals -/

omit [Scalar α] in
theorem map_range_isPrefix {β : Type} {f g : Nat → β} {n m : Nat} (hfg : ∀ i, i < n → f i = g i) :
    (List.range n).map f <+: (List.range (n + m)).map g := by
  rw [List.range_add, List.map_append,
    List.map_congr_left fun i hi => hfg i (List.mem_range.mp hi)]
  exact List.prefix_append _ _

/-- The series of an indicator in a table does not depend on the other indicators there. -/
theorem Indicator.find?_table (is : List Indicator) (i : Indicator) (bars : List (Bar α)) :
    (Indicator.table is bars).find? i = ((distinct is).find? (· = i)).map (·.series bars) := by
  rw [Table.find?, table, List.find?_map]
  rfl

section

variable (is : List Indicator) {bars : List (Bar α)} (more : List (Bar α)) {index : Nat}

theorem Source.valueAt_append (s : Source) (h : index < bars.length) :
    s.valueAt (Indicator.table is (bars ++ more)) (bars ++ more) index =
      s.valueAt (Indicator.table is bars) bars index := by
  cases s with
  | price => simp only [Source.valueAt, List.getElem?_append_left h]
  | volume => simp only [Source.valueAt, List.getElem?_append_left h]
  | indicator i field =>
    simp only [Source.valueAt, Indicator.find?_table]
    cases (Indicator.distinct is).find? (· = i) with
    | none => rfl
    | some j =>
      have hpoint : (j.series (bars ++ more)).points[index]? = (j.series bars).points[index]? :=
        (Indicator.causal_points j).getElem?_append h
      simp only [Option.map_some, Option.bind_eq_bind, Option.bind_some, hpoint]

theorem Operand.valueAt_append (o : Operand α) (h : index < bars.length) :
    o.valueAt (Indicator.table is (bars ++ more)) (bars ++ more) index =
      o.valueAt (Indicator.table is bars) bars index := by
  cases o with
  | source s => exact s.valueAt_append is more h
  | constant v => rfl

theorem Condition.testAt_append (c : Condition α) (test : α → α → Bool) (h : index < bars.length) :
    c.testAt (Indicator.table is (bars ++ more)) (bars ++ more) index test =
      c.testAt (Indicator.table is bars) bars index test := by
  rw [testAt, testAt, c.left.valueAt_append is more h, c.right.valueAt_append is more h]

/-- Whether a condition holds at a bar is decided by the bars up to there. -/
theorem Condition.holdsAt_append (c : Condition α) (h : index < bars.length) :
    c.holdsAt (Indicator.table is (bars ++ more)) (bars ++ more) index =
      c.holdsAt (Indicator.table is bars) bars index := by
  cases index with
  | zero => simp only [holdsAt, c.testAt_append is more _ h]
  | succ before =>
    simp only [holdsAt, c.testAt_append is more _ h, c.testAt_append is more _ (Nat.lt_of_succ_lt h)]

end

/-- The signal of a rule says at each bar whether its conditions hold there. -/
theorem Rule.signal_eq {r : Rule α} (hr : r.conditions ≠ []) (table : Indicator.Table α)
    (bars : List (Bar α)) :
    r.signal table bars = (List.range bars.length).map fun i =>
      r.combination.combine (r.conditions.map fun c => c.holdsAt table bars i) := by
  obtain ⟨c, cs, hcs⟩ := List.exists_cons_of_ne_nil hr
  have hbit : ∀ (c : Condition α) (i : Nat), i < bars.length →
      (c.signal table bars)[i]?.getD false = c.holdsAt table bars i := by
    intro c i hi
    rw [Condition.signal, List.getElem?_map, List.getElem?_range hi]
    rfl
  rw [Rule.signal, hcs, List.map_cons, Combination.signal]
  apply List.ext_getElem
  · simp [Condition.signal]
  · intro i hi _
    have hlt : i < bars.length := by simpa [Condition.signal] using hi
    simp only [List.getElem_map, List.getElem_zipIdx, List.getElem_range, List.map_map, Nat.zero_add,
      Condition.signal, List.map_cons]
    congr 2
    apply List.map_congr_left
    intro d _
    exact hbit d i hlt

theorem Rule.length_signal {r : Rule α} (hr : r.conditions ≠ []) (table : Indicator.Table α)
    (bars : List (Bar α)) : (r.signal table bars).length = bars.length := by
  rw [r.signal_eq hr, List.length_map, List.length_range]

theorem Rule.signal_isPrefix (r : Rule α) (bars more : List (Bar α)) :
    r.signal (Indicator.table r.indicators bars) bars <+:
      r.signal (Indicator.table r.indicators (bars ++ more)) (bars ++ more) := by
  by_cases hr : r.conditions = []
  · rw [Rule.signal, hr]
    exact List.nil_prefix
  · rw [r.signal_eq hr, r.signal_eq hr, List.length_append]
    apply map_range_isPrefix
    intro i hi
    simp only [Condition.holdsAt_append r.indicators more _ hi]

/-! ## Windows -/

omit [Scalar α] in
theorem takeWhile_isPrefix_append {β : Type} (p : β → Bool) (xs ys : List β) :
    xs.takeWhile p <+: (xs ++ ys).takeWhile p := by
  rw [List.takeWhile_append]
  split_ifs with hall
  · rw [List.Sublist.eq_of_length (List.takeWhile_sublist p) hall]
    exact List.prefix_append _ _
  · exact List.prefix_refl _

omit [Scalar α] in
/-- The part in the window grows at its end, once something lies in it. -/
theorem Window.cut_isPrefix {β : Type} (w : Window) (date : β → Date) {xs xs' : List β}
    (hxs : xs <+: xs') (hne : w.cut date xs ≠ []) : w.cut date xs <+: w.cut date xs' := by
  obtain ⟨ys, rfl⟩ := hxs
  obtain ⟨zs, hzs⟩ := takeWhile_isPrefix_append (fun x => w.isOpen (date x)) xs ys
  rw [cut, List.isEmpty_eq_false_iff.symm] at hne
  rw [cut, cut, ← hzs, List.dropWhile_append, if_neg (by rw [hne]; decide)]
  exact List.prefix_append _ _

/-! ## Trades -/

/-- The holdings of a history and of a longer one: those that the signal closed are the same, and one
that was closed because the bars ended has the entry of the next one. -/
inductive Settles : List (Holding α) → List (Holding α) → Prop where
  | nil (hs' : List (Holding α)) : Settles [] hs'
  | forced {h h' : Holding α} {hs' : List (Holding α)} (reason : h.reason = .endOfData)
    (entry : h'.entry = h.entry) : Settles [h] (h' :: hs')
  | cons {h : Holding α} {hs hs' : List (Holding α)} (reason : h.reason = .signal)
    (rest : Settles hs hs') : Settles (h :: hs) (h :: hs')

/-- A position that is open in front of a bar is closed first. -/
theorem holdingsFrom_open (e : Bar α) (marked : List (Bar α × Bool)) (hne : marked ≠ []) :
    ∃ h hs, holdingsFrom (some e) marked = h :: hs ∧ h.entry = e := by
  induction marked with
  | nil => exact absurd rfl hne
  | cons m rest ih =>
    obtain ⟨bar, fires⟩ := m
    rw [holdingsFrom]
    by_cases hfires : fires = true
    · by_cases hend : rest = []
      · exact ⟨⟨e, bar, .endOfData⟩, [], by simp [hfires, hend], rfl⟩
      · simpa [hfires, hend] using ih hend
    · exact ⟨⟨e, bar, .signal⟩, holdingsFrom none rest, by simp [hfires], rfl⟩

/-- Along the walk over the shorter history, whatever position is open. -/
theorem settles_holdingsFrom {marked marked' : List (Bar α × Bool)} (h : marked <+: marked') :
    ∀ entry, Settles (holdingsFrom entry marked) (holdingsFrom entry marked') := by
  obtain ⟨later, rfl⟩ := h
  induction marked with
  | nil => exact fun entry => .nil _
  | cons m rest ih =>
    obtain ⟨bar, fires⟩ := m
    intro entry
    rw [List.cons_append]
    by_cases hend : rest = []
    · subst hend
      cases entry with
      | none =>
        -- the last bar is no entry, whatever it says
        have hnil : holdingsFrom none [(bar, fires)] = [] := by simp [holdingsFrom]
        rw [hnil]
        exact .nil _
      | some e =>
        cases fires with
        | false =>
          simp only [holdingsFrom, Bool.not_false, if_true]
          exact .cons rfl (.nil _)
        | true =>
          obtain ⟨h, hs, heq, hentry⟩ := holdingsFrom_open e ((bar, true) :: ([] ++ later)) (by simp)
          rw [heq]
          exact .forced rfl hentry
    · have hmore : (rest ++ later).isEmpty = rest.isEmpty := by
        cases rest with
        | nil => exact absurd rfl hend
        | cons _ _ => rfl
      cases entry with
      | none =>
        rw [holdingsFrom, holdingsFrom, hmore]
        split_ifs with henter
        · exact ih (some bar)
        · exact ih none
      | some e =>
        rw [holdingsFrom, holdingsFrom, hmore]
        split_ifs with hquiet hlast
        · exact .cons rfl (ih none)
        · exact absurd (List.isEmpty_iff.mp hlast) hend
        · exact ih (some e)

/-! ## Runs -/

/-- What a longer history leaves of a run. -/
structure Run.Extends (longer shorter : Run α) : Prop where
  window : shorter.window <+: longer.window
  signal : shorter.signal <+: longer.signal
  /-- The trades that the signal closed are the first ones of the longer run. -/
  settled : shorter.trades.filter (·.reason = .signal) <+: longer.trades
  /-- The trade behind them is entered as the one that was closed because the bars ended. -/
  forced : ∀ t, shorter.trades.getLast? = some t → t.reason = .endOfData →
    ∃ t', longer.trades[(shorter.trades.filter (·.reason = .signal)).length]? = some t' ∧
      t'.entryDate = t.entryDate ∧ t'.entryPrice = t.entryPrice

theorem Settles.settled {d : Direction} {hs hs' : List (Holding α)} (h : Settles hs hs') :
    (hs.map (Holding.trade d)).filter (·.reason = .signal) <+: hs'.map (Holding.trade d) := by
  induction h with
  | nil hs' => exact List.nil_prefix
  | @forced h h' hs' hreason hentry =>
    simp [Holding.trade, hreason]
  | @cons h hs hs' hreason _ ih =>
    simpa [Holding.trade, hreason] using ih

theorem Settles.reopened {d : Direction} {hs hs' : List (Holding α)} (h : Settles hs hs') {t : Trade α}
    (ht : (hs.map (Holding.trade d)).getLast? = some t) (hforced : t.reason = .endOfData) :
    ∃ t', (hs'.map (Holding.trade d))[((hs.map (Holding.trade d)).filter
        (·.reason = .signal)).length]? = some t' ∧
      t'.entryDate = t.entryDate ∧ t'.entryPrice = t.entryPrice := by
  induction h with
  | nil hs' => simp at ht
  | @forced h h' hs' hreason hentry =>
    obtain rfl : h.trade d = t := by simpa using ht
    refine ⟨h'.trade d, by simp [Holding.trade, hreason], ?_⟩
    simp only [Holding.trade, hentry, and_self]
  | @cons h hs hs' hreason _ ih =>
    rw [List.map_cons, List.getLast?_cons, Option.some.injEq] at ht
    rcases hlast : (hs.map (Holding.trade d)).getLast? with _ | u
    · rw [hlast, Option.getD_none] at ht
      rw [← ht, Holding.trade, hreason] at hforced
      cases hforced
    · rw [hlast, Option.getD_some] at ht
      rw [List.map_cons (l := hs), List.filter_cons_of_pos (by simp [Holding.trade, hreason]),
        List.length_cons, List.map_cons, List.getElem?_cons_succ]
      exact ih (hlast.trans (congrArg some ht))

/-- A run succeeds when every check passes and some bar lies in the window, with the trades of the
bars and the signal there. -/
theorem Rule.runInOrder_eq_ok_iff {order : Indicator.Table α → List (Indicator.Series α)} {r : Rule α}
    {bars : List (Bar α)} {w : Window} {run : Run α} :
    r.runInOrder order bars w = .ok run ↔
      ∃ marked, marked = w.cut (·.1.date)
          (bars.zip (r.signal (Indicator.table r.indicators bars) bars)) ∧ marked ≠ [] ∧
        Bar.check bars = .ok () ∧ r.checkHistory bars = .ok () ∧
        checkFinite (order (Indicator.table r.indicators bars)) = .ok () ∧
        ∃ trades, simulate r.direction (marked.map (·.1)) (marked.map (·.2)) = .ok trades ∧
          run = ⟨r.ticker, marked.map (·.1), marked.map (·.2), trades⟩ := by
  simp only [exists_eq_left, runInOrder]
  generalize w.cut (·.1.date) (bars.zip (r.signal (Indicator.table r.indicators bars) bars)) = marked
  generalize simulate r.direction (marked.map (·.1)) (marked.map (·.2)) = result
  rcases Bar.check bars with fault | ⟨⟨⟩⟩
  · simp [throw, throwThe, MonadExceptOf.throw, bind, Except.bind]
  rcases r.checkHistory bars with fault | ⟨⟨⟩⟩
  · simp [bind, Except.bind]
  rcases checkFinite (order (Indicator.table r.indicators bars)) with fault | ⟨⟨⟩⟩
  · simp [bind, Except.bind]
  rcases marked with _ | ⟨m, rest⟩
  · simp [throw, throwThe, MonadExceptOf.throw, bind, Except.bind]
  rcases result with bad | trades
  · simp [throw, throwThe, MonadExceptOf.throw, bind, Except.bind]
  · simp [bind, Except.bind, pure, Except.pure, eq_comm]

/-- **Runs do not look ahead.** Bars that come in behind a history leave the window, the signal and the
closed trades of its run as they are, in whatever order the indicators are checked. -/
theorem Rule.runInOrder_extends {order order' : Indicator.Table α → List (Indicator.Series α)}
    {r : Rule α} {w : Window} {bars more : List (Bar α)} {run run' : Run α}
    (hrun : r.runInOrder order bars w = .ok run)
    (hrun' : r.runInOrder order' (bars ++ more) w = .ok run') : run'.Extends run := by
  obtain ⟨marked, rfl, hne, -, -, -, trades, hsim, rfl⟩ := runInOrder_eq_ok_iff.mp hrun
  obtain ⟨marked', rfl, -, -, -, -, trades', hsim', rfl⟩ := runInOrder_eq_ok_iff.mp hrun'
  have hgrows := w.cut_isPrefix (·.1.date)
    (zipWith_isPrefix Prod.mk (List.prefix_append bars more) (r.signal_isPrefix bars more)) hne
  rw [simulate_eq_ok_iff, holdings, ← List.zip_of_prod rfl rfl] at hsim hsim'
  obtain ⟨rfl, -⟩ := hsim
  obtain ⟨rfl, -⟩ := hsim'
  have hsettles := settles_holdingsFrom hgrows none
  exact ⟨hgrows.map _, hgrows.map _, hsettles.settled, fun t ht => hsettles.reopened ht⟩

/-- The rule that buys while the mean of two closes is above a number. -/
def Rule.meanAbove (v : Float) : Rule Float :=
  ⟨"ACME", .long, [⟨.source (.indicator (.sma 2) .value), .greater, .constant v⟩], .all⟩

/-- A history whose run has a trade that the signal closed and one that was closed because the bars
ended; three more bars follow. -/
theorem Rule.runInOrder_extends_flatHistory :
    ∃ run run' : Run Float,
      (meanAbove 2).runInOrder id (Bar.flatHistory [1, 3, 4, 1, 3, 5, 6]) .everything = .ok run ∧
      (meanAbove 2).runInOrder List.reverse (Bar.flatHistory [1, 3, 4, 1, 3, 5, 6] ++
        [⟨⟨9⟩, 7, 8, 6, 7, 0⟩, ⟨⟨10⟩, 1, 1, 1, 1, 0⟩, ⟨⟨11⟩, 1, 1, 1, 1, 0⟩])
        .everything = .ok run' ∧
      run.trades.map (·.reason) = [.signal, .endOfData] ∧
      run'.trades.map (·.reason) = [.signal, .signal] ∧ run'.Extends run := by
  obtain ⟨run, hrun, hreasons⟩ : ∃ run : Run Float,
      (meanAbove 2).runInOrder id (Bar.flatHistory [1, 3, 4, 1, 3, 5, 6]) .everything = .ok run ∧
      run.trades.map (·.reason) = [.signal, .endOfData] := ⟨_, rfl, rfl⟩
  obtain ⟨run', hrun', hreasons'⟩ : ∃ run' : Run Float,
      (meanAbove 2).runInOrder List.reverse (Bar.flatHistory [1, 3, 4, 1, 3, 5, 6] ++
        [⟨⟨9⟩, 7, 8, 6, 7, 0⟩, ⟨⟨10⟩, 1, 1, 1, 1, 0⟩, ⟨⟨11⟩, 1, 1, 1, 1, 0⟩])
        .everything = .ok run' ∧
      run'.trades.map (·.reason) = [.signal, .signal] := ⟨_, rfl, rfl⟩
  exact ⟨run, run', hrun, hrun', hreasons, hreasons', runInOrder_extends hrun hrun'⟩

end Backtest
