import Backtest.Performance
import Backtest.Proofs.Extension

/-!
# Equity

The equity curve is computed by one walk along the window: at each bar it takes from the front of the
trades those that end there. A trade that is not at the front when the walk reaches the bar of its exit
would stay there, and keep back all trades behind it. That this does not happen rests on the order of
the trades (`exits_sublist`): their exits are bars of the window, one for each trade, in the order of the
window, whose dates ascend (`Bar.ascending_of_check`).

So the trades that the walk has passed at a bar are those that ended by then (`countedFrom_eq`). The equity
there is the growth over them (`equityFrom_eq`), and at the last bar it is the growth over all trades,
which is how the return of a run is computed (`Rule.runInOrder_equity`).
-/

namespace Backtest

/-! ## Dates -/

namespace Date

theorem lt_trans {a b c : Date} (hab : a < b) (hbc : b < c) : a < c := Int.lt_trans hab hbc

theorem not_le {a b : Date} : ¬ a ≤ b ↔ b < a := Int.not_le

theorem le_trans {a b c : Date} (hab : a ≤ b) (hbc : b ≤ c) : a ≤ c := Int.le_trans hab hbc

theorem le_of_lt {a b : Date} (h : a < b) : a ≤ b := Int.le_of_lt h

theorem le_refl (a : Date) : a ≤ a := Int.le_refl a.day

theorem le_total (a b : Date) : a ≤ b ∨ b ≤ a := Int.le_total a.day b.day

theorem le_antisymm {a b : Date} (hab : a ≤ b) (hba : b ≤ a) : a = b :=
  congrArg Date.mk (Int.le_antisymm hab hba)

theorem ne_of_lt {a b : Date} (h : a < b) : a ≠ b := by
  rintro rfl
  exact Int.lt_irrefl _ h

end Date

variable {α : Type} [Scalar α]

/-- Bars that are checked from a date on ascend from there. -/
theorem Bar.ascending_of_checkFrom {bars : List (Bar α)} {index : Nat} {previous : Option Date}
    (h : checkFrom index previous bars = .ok ()) :
    (∀ p ∈ previous, ∀ b ∈ bars, p < b.date) ∧ (bars.map (·.date)).Pairwise (· < ·) := by
  induction bars generalizing index previous with
  | nil => simp
  | cons b rest ih =>
    cases previous with
    | none =>
      rw [checkFrom] at h
      split_ifs at h
      obtain ⟨hfirst, hrest⟩ := ih h
      refine ⟨by simp, ?_⟩
      rw [List.map_cons, List.pairwise_cons, List.forall_mem_map]
      exact ⟨hfirst b.date rfl, hrest⟩
    | some p =>
      rw [checkFrom] at h
      split_ifs at h with _ hle
      have hlt : p < b.date := Date.not_le.mp hle
      obtain ⟨hfirst, hrest⟩ := ih h
      rw [List.map_cons, List.pairwise_cons, List.forall_mem_map]
      refine ⟨?_, hfirst b.date rfl, hrest⟩
      rintro q hq c hc
      obtain rfl : p = q := by simpa using hq
      rcases List.mem_cons.mp hc with rfl | hc
      · exact hlt
      · exact Date.lt_trans hlt (hfirst b.date rfl c hc)

/-- The dates of an accepted history ascend. -/
theorem Bar.ascending_of_check {bars : List (Bar α)} (h : check bars = .ok ()) :
    (bars.map (·.date)).Pairwise (· < ·) :=
  (ascending_of_checkFrom h).2

omit [Scalar α] in
/-- What lies in a window keeps its order. -/
theorem Window.cut_sublist {β : Type} (w : Window) (date : β → Date) (xs : List β) :
    (w.cut date xs).Sublist xs :=
  (List.dropWhile_sublist _).trans (List.takeWhile_sublist _)

omit [Scalar α] in
theorem map_fst_zip_sublist {β γ : Type} (xs : List β) (ys : List γ) :
    ((xs.zip ys).map (·.1)).Sublist xs := by
  induction xs generalizing ys with
  | nil => simp
  | cons x xs ih =>
    cases ys with
    | nil => simp
    | cons y ys => exact (ih ys).cons_cons x

/-- The exits of the holdings are bars that the walk passes, in this order. -/
theorem exits_sublist (marked : List (Bar α × Bool)) :
    ∀ entry, ((holdingsFrom entry marked).map (·.exit)).Sublist (marked.map (·.1)) := by
  induction marked with
  | nil => simp [holdingsFrom]
  | cons m rest ih =>
    obtain ⟨bar, fires⟩ := m
    intro entry
    rw [List.map_cons]
    cases entry with
    | none =>
      rw [holdingsFrom]
      split_ifs
      · exact (ih (some bar)).cons bar
      · exact (ih none).cons bar
    | some e =>
      rw [holdingsFrom]
      split_ifs
      · exact (ih none).cons_cons bar
      · exact (List.nil_sublist _).cons_cons bar
      · exact (ih (some e)).cons bar

/-! ## Trades and the bars at which they end -/

namespace Performance

omit [Scalar α] in
/-- Of trades that end at some of these dates, one at each and in order, those of the first date come
first, and the others end later. -/
theorem exists_split {date : Date} {dates : List Date} (hdates : (date :: dates).Pairwise (· < ·))
    {trades : List (Trade α)} (h : (trades.map (·.exitDate)).Sublist (date :: dates)) :
    ∃ ending after, trades = ending ++ after ∧ (∀ t ∈ ending, t.exitDate = date) ∧
      (∀ t ∈ after, date < t.exitDate) ∧ (after.map (·.exitDate)).Sublist dates := by
  have hlater : ∀ {after : List (Trade α)}, (after.map (·.exitDate)).Sublist dates →
      ∀ t ∈ after, date < t.exitDate := by
    intro after hafter t ht
    exact (List.pairwise_cons.mp hdates).1 _ (hafter.subset (List.mem_map_of_mem ht))
  rcases List.sublist_cons_iff.mp h with hrest | ⟨exits, heq, hrest⟩
  · exact ⟨[], trades, rfl, by simp, hlater hrest, hrest⟩
  · obtain ⟨t, after, rfl, hexit, rfl⟩ := List.map_eq_cons_iff.mp heq
    exact ⟨[t], after, rfl, by simpa using hexit, hlater hrest, hrest⟩

section

variable {date : Date} {ending after : List (Trade α)}

omit [Scalar α] in
theorem takeWhile_ending (hending : ∀ t ∈ ending, t.exitDate = date)
    (hafter : ∀ t ∈ after, date < t.exitDate) :
    (ending ++ after).takeWhile (fun t => t.exitDate = date) = ending ∧
      (ending ++ after).dropWhile (fun t => t.exitDate = date) = after := by
  induction ending with
  | cons t ending ih =>
    obtain ⟨ht, hrest⟩ := List.forall_mem_cons.mp hending
    simpa [ht] using ih hrest
  | nil =>
    cases after with
    | nil => simp
    | cons t after =>
      have hne : t.exitDate ≠ date := (Date.ne_of_lt (hafter t (by simp))).symm
      simp [hne]

omit [Scalar α] in
theorem filter_ended {d : Date} (hending : ∀ t ∈ ending, t.exitDate = date) (hd : date ≤ d) :
    (ending ++ after).filter (fun t => t.exitDate ≤ d) =
      ending ++ after.filter (fun t => t.exitDate ≤ d) := by
  rw [List.filter_append, List.filter_eq_self.mpr]
  intro t ht
  rw [hending t ht, decide_eq_true hd]

omit [Scalar α] in
theorem filter_later (hafter : ∀ t ∈ after, date < t.exitDate) :
    after.filter (fun t => t.exitDate ≤ date) = [] := by
  rw [List.filter_eq_nil_iff]
  intro t ht
  simpa [Date.not_le] using hafter t ht

end

section

variable {window : List (Bar α)} {trades : List (Trade α)}

theorem growth_append (g : α) (trades more : List (Trade α)) :
    growth g (trades ++ more) = growth (growth g trades) more := List.foldl_append

/-- At each bar, the trades that the walk has passed by then: those that it had passed, and those that it takes from
the front on its way. -/
def countedFrom (done trades : List (Trade α)) : List (Bar α) → List (List (Trade α))
  | [] => []
  | bar :: rest =>
    let done := done ++ trades.takeWhile fun t => t.exitDate = bar.date
    done :: countedFrom done (trades.dropWhile fun t => t.exitDate = bar.date) rest

/-- The equity at a bar is the growth over the trades that are passed by then. -/
theorem equityFrom_growth (g : α) (done trades : List (Trade α)) (bars : List (Bar α)) :
    equityFrom (growth g done) trades bars =
      List.zipWith (fun bar done => ⟨bar.date, percent (growth g done)⟩) bars (countedFrom done trades bars) := by
  induction bars generalizing done trades with
  | nil => rfl
  | cons bar rest ih => rw [equityFrom, countedFrom, List.zipWith_cons_cons, ← growth_append, ih]

omit [Scalar α] in
/-- The trades that are passed by a bar are those that ended by then. -/
theorem countedFrom_eq (hdates : (window.map (·.date)).Pairwise (· < ·))
    (h : (trades.map (·.exitDate)).Sublist (window.map (·.date))) (done : List (Trade α)) :
    countedFrom done trades window = window.map fun bar => done ++ trades.filter (·.exitDate ≤ bar.date) := by
  induction window generalizing trades done with
  | nil => rfl
  | cons bar rest ih =>
    rw [List.map_cons] at h hdates
    obtain ⟨ending, after, rfl, hending, hlater, hafter⟩ := exists_split hdates h
    obtain ⟨hfirst, hrest⟩ := List.pairwise_cons.mp hdates
    obtain ⟨htake, hdrop⟩ := takeWhile_ending hending hlater
    rw [countedFrom, htake, hdrop, ih hrest hafter, List.map_cons, filter_ended hending (Date.le_refl _),
      filter_later hlater, List.append_nil]
    congr 1
    apply List.map_congr_left
    intro b hb
    have hlt : bar.date < b.date := hfirst _ (List.mem_map_of_mem hb)
    rw [filter_ended hending (Date.le_of_lt hlt), List.append_assoc]

/-- The equity at a bar is the growth over the trades that ended by then. -/
theorem equityFrom_eq (hdates : (window.map (·.date)).Pairwise (· < ·))
    (h : (trades.map (·.exitDate)).Sublist (window.map (·.date))) (g : α) :
    equityFrom g trades window = window.map fun bar =>
      ⟨bar.date, percent (growth g (trades.filter (·.exitDate ≤ bar.date)))⟩ := by
  have hgrowth := equityFrom_growth g [] trades window
  rwa [countedFrom_eq hdates h, List.zipWith_map_right, List.zipWith_self] at hgrowth

omit [Scalar α] in
/-- Bar by bar, the trades that end there are all trades, in order. -/
theorem flatMap_ending (hdates : (window.map (·.date)).Pairwise (· < ·))
    (h : (trades.map (·.exitDate)).Sublist (window.map (·.date))) :
    (window.flatMap fun bar => trades.filter (·.exitDate = bar.date)) = trades := by
  induction window generalizing trades with
  | nil =>
    rw [List.map_nil, List.sublist_nil, List.map_eq_nil_iff] at h
    rw [h]
    rfl
  | cons bar rest ih =>
    rw [List.map_cons] at h hdates
    obtain ⟨ending, after, rfl, hending, hlater, hafter⟩ := exists_split hdates h
    obtain ⟨hfirst, hrest⟩ := List.pairwise_cons.mp hdates
    have hhere : (ending ++ after).filter (fun t => t.exitDate = bar.date) = ending := by
      rw [List.filter_append, List.filter_eq_self.mpr (by simpa using hending),
        List.filter_eq_nil_iff.mpr, List.append_nil]
      intro t ht
      simpa using (Date.ne_of_lt (hlater t ht)).symm
    have hthere : ∀ b ∈ rest, (ending ++ after).filter (fun t => t.exitDate = b.date) =
        after.filter (fun t => t.exitDate = b.date) := by
      intro b hb
      rw [List.filter_append, List.filter_eq_nil_iff.mpr, List.nil_append]
      intro t ht
      rw [hending t ht]
      simpa using Date.ne_of_lt (hfirst _ (List.mem_map_of_mem hb))
    rw [List.flatMap_cons, hhere, List.flatMap_congr hthere, ih hrest hafter]

end

/-! ## The equity of a run -/

/-- What the equity curve in a performance has to be for a run. -/
structure IsEquityOf (run : Run α) (p : Performance α) : Prop where
  /-- There is one point for each bar of the window, and it carries the date of the bar. -/
  dates : p.equity.map (·.date) = run.window.map (·.date)
  /-- At each bar the trades that ended by then are compounded, in order. -/
  compounded : p.equity.map (·.returnPct) = run.window.map fun bar =>
    percent (growth ((1 : Nat) : α) (run.trades.filter (·.exitDate ≤ bar.date)))
  /-- Bar by bar, the trades that end there are all trades of the run, each once and in order. -/
  once : (run.window.flatMap fun bar => run.trades.filter (·.exitDate = bar.date)) = run.trades
  /-- From one bar to the next the curve does not change unless a trade ends there. -/
  still : ∀ i before after, p.equity[i]? = some before → p.equity[i + 1]? = some after →
    (∀ t ∈ run.trades, t.exitDate ≠ after.date) → after.returnPct = before.returnPct
  /-- The last point is the return of the run. -/
  last : p.equity.getLast?.map (·.returnPct) = some p.returnPct

omit [Scalar α] in
/-- Trades that end by one bar and not at it end by the bar before. -/
theorem filter_ended_succ {window : List (Bar α)} {trades : List (Trade α)} {i : Nat}
    {before after : Bar α} (hdates : (window.map (·.date)).Pairwise (· < ·))
    (h : (trades.map (·.exitDate)).Sublist (window.map (·.date)))
    (hbefore : window[i]? = some before) (hafter : window[i + 1]? = some after)
    (hnone : ∀ t ∈ trades, t.exitDate ≠ after.date) :
    trades.filter (·.exitDate ≤ after.date) = trades.filter (·.exitDate ≤ before.date) := by
  obtain ⟨hi, rfl⟩ := List.getElem?_eq_some_iff.mp hbefore
  obtain ⟨hi', rfl⟩ := List.getElem?_eq_some_iff.mp hafter
  rw [List.pairwise_map, List.pairwise_iff_getElem] at hdates
  apply List.filter_congr
  intro t ht
  obtain ⟨j, hj, hjt⟩ := List.getElem_of_mem (h.subset (List.mem_map_of_mem ht))
  rw [List.getElem_map] at hjt
  rw [List.length_map] at hj
  have hne : j ≠ i + 1 := by
    rintro rfl
    exact hnone t ht hjt.symm
  rw [← hjt, decide_eq_decide]
  rcases Nat.lt_or_ge j (i + 1) with hlt | hge
  · have hle : window[j].date ≤ window[i].date := by
      rcases Nat.lt_or_ge j i with hji | hji
      · exact Date.le_of_lt (hdates j i hj hi hji)
      · obtain rfl : j = i := by omega
        exact Date.le_refl _
    exact ⟨fun _ => hle, fun _ => Date.le_of_lt (hdates j (i + 1) hj hi' hlt)⟩
  · have hgt : window[i + 1].date < window[j].date := hdates (i + 1) j hi' hj (by omega)
    have hgt' : window[i].date < window[j].date := hdates i j hi hj (by omega)
    exact ⟨fun hle => absurd hgt (by rwa [← Date.not_le, not_not]),
      fun hle => absurd hgt' (by rwa [← Date.not_le, not_not])⟩

end Performance

/-- The window of a run is cut out of the history. -/
theorem Rule.runInOrder_window {order : Indicator.Table α → List (Indicator.Series α)} {r : Rule α}
    {bars : List (Bar α)} {w : Window} {run : Run α} (hrun : r.runInOrder order bars w = .ok run) :
    run.window.Sublist bars := by
  obtain ⟨marked, hmarked, -, -, -, -, trades, -, rfl⟩ := runInOrder_eq_ok_iff.mp hrun
  show (marked.map (·.1)).Sublist bars
  rw [hmarked]
  exact ((w.cut_sublist _ _).map _).trans (map_fst_zip_sublist _ _)

/-- The dates of a run ascend along its window, in which something lies, and its trades end at bars of
the window, one at each and in order. -/
theorem Rule.runInOrder_dates {order : Indicator.Table α → List (Indicator.Series α)} {r : Rule α}
    {bars : List (Bar α)} {w : Window} {run : Run α} (hrun : r.runInOrder order bars w = .ok run) :
    run.window ≠ [] ∧ (run.window.map (·.date)).Pairwise (· < ·) ∧
      (run.trades.map (·.exitDate)).Sublist (run.window.map (·.date)) := by
  have hbars := runInOrder_window hrun
  obtain ⟨marked, -, hne, hcheck, -, -, trades, hsim, rfl⟩ := runInOrder_eq_ok_iff.mp hrun
  rw [simulate_eq_ok_iff, holdings, ← List.zip_of_prod rfl rfl] at hsim
  obtain ⟨rfl, -⟩ := hsim
  refine ⟨by simpa using hne, (Bar.ascending_of_check hcheck).sublist (hbars.map _), ?_⟩
  have hexits := (exits_sublist marked none).map (·.date)
  rw [List.map_map] at hexits ⊢
  exact hexits

/-- The points of the curve of a run. -/
theorem Rule.equity_of_runInOrder {order : Indicator.Table α → List (Indicator.Series α)} {r : Rule α}
    {bars : List (Bar α)} {w : Window} {run : Run α} (hrun : r.runInOrder order bars w = .ok run) :
    (Performance.ofRun run).equity = run.window.map fun bar =>
      ⟨bar.date, Performance.percent (Performance.growth ((1 : Nat) : α)
        (run.trades.filter (·.exitDate ≤ bar.date)))⟩ := by
  obtain ⟨-, hdates, hexits⟩ := runInOrder_dates hrun
  exact Performance.equityFrom_eq hdates hexits _

theorem Rule.dates_equity {order : Indicator.Table α → List (Indicator.Series α)} {r : Rule α}
    {bars : List (Bar α)} {w : Window} {run : Run α} (hrun : r.runInOrder order bars w = .ok run) :
    (Performance.ofRun run).equity.map (·.date) = run.window.map (·.date) := by
  rw [equity_of_runInOrder hrun, List.map_map]
  rfl

/-- **The equity curve of a run** has one point for each bar of the window. At each bar the trades that
ended by then are compounded, so that each trade counts from its exit on, once, and the last point is the
return of the run. -/
theorem Rule.runInOrder_equity {order : Indicator.Table α → List (Indicator.Series α)} {r : Rule α}
    {bars : List (Bar α)} {w : Window} {run : Run α} (hrun : r.runInOrder order bars w = .ok run) :
    (Performance.ofRun run).IsEquityOf run := by
  obtain ⟨hne, hdates, hexits⟩ := runInOrder_dates hrun
  have hequity := equity_of_runInOrder hrun
  refine ⟨dates_equity hrun, ?_, Performance.flatMap_ending hdates hexits, ?_, ?_⟩
  · rw [hequity, List.map_map]
    rfl
  · intro i before after hbefore hafter hnone
    rw [hequity, List.getElem?_map, Option.map_eq_some_iff] at hbefore hafter
    obtain ⟨b, hb, rfl⟩ := hbefore
    obtain ⟨a, ha, rfl⟩ := hafter
    simp only at hnone ⊢
    rw [Performance.filter_ended_succ hdates hexits hb ha hnone]
  · -- every trade ended by the last bar
    obtain ⟨front, last, hlast⟩ : ∃ front last, run.window = front ++ [last] :=
      ⟨_, _, (List.dropLast_append_getLast hne).symm⟩
    have hall : run.trades.filter (·.exitDate ≤ last.date) = run.trades := by
      rw [List.filter_eq_self]
      intro t ht
      rw [decide_eq_true_eq]
      have hmem := hexits.subset (List.mem_map_of_mem ht)
      rw [hlast, List.map_append, List.pairwise_append] at hdates
      rw [hlast, List.map_append, List.mem_append] at hmem
      rcases hmem with hfront | heq
      · exact Date.le_of_lt (hdates.2.2 _ hfront _ (by simp))
      · rw [List.map_singleton, List.mem_singleton] at heq
        rw [heq]
        exact Date.le_refl _
    rw [hequity, hlast, List.map_append, List.map_singleton, List.getLast?_concat, Option.map_some, hall]
    rfl

/-- A run with a trade that the signal closed, at three quarters of its entry, and one that was closed because the bars
ended. The loss stands in the curve from its day on. -/
theorem Rule.runInOrder_equity_flatHistory :
    ∃ run : Run Float,
      (meanAbove 2).runInOrder id (Bar.flatHistory [1, 3, 4, 1, 3, 5, 6]) .everything = .ok run ∧
      run.trades.map (·.exitDate) = [⟨4⟩, ⟨6⟩] ∧
      ((Performance.ofRun run).equity.take 6).map (·.returnPct) = [0, 0, 0, 0, -25, -25] ∧
      (Performance.ofRun run).IsEquityOf run := by
  obtain ⟨run, hrun, hexits, hequity⟩ : ∃ run : Run Float,
      (meanAbove 2).runInOrder id (Bar.flatHistory [1, 3, 4, 1, 3, 5, 6]) .everything = .ok run ∧
      run.trades.map (·.exitDate) = [⟨4⟩, ⟨6⟩] ∧
      ((Performance.ofRun run).equity.take 6).map (·.returnPct) = [0, 0, 0, 0, -25, -25] :=
    ⟨_, rfl, rfl, by decide +kernel⟩
  exact ⟨run, hrun, hexits, hequity, runInOrder_equity hrun⟩

end Backtest
