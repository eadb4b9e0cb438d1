import Backtest.Run
import Backtest.Proofs.Extension
import Backtest.Proofs.Checked.Series
import Backtest.Proofs.Checked.Signal

/-!
# Runs by positions

A rule is run over a history as by positions: the check of the bars reads the bar in front, the window is a
piece of the bars and of the signal between two bounds, and the walk along the window remembers the position
of an entry. `runInOrder_eq`: for a rule with a condition whose required bars fit in 64 bits, the run never
traps, whatever the bars are, and gives what the program gives.
-/

namespace Backtest.Checked

variable {α : Type}

/-! ## The check of the bars -/

section

variable [Scalar α]

/-- The checks of the bars from a position on. -/
def checkFrom (bars : List (Bar α)) (i : Nat) : List (Bar α) → Answer Bar.Fault Unit
  | [] => pure ()
  | b :: rest =>
    if !b.hasSoundFields then throw (.badField i b.date)
    else if 0 < i then do
      let before ← lift (get bars (← lift (sub i 1)))
      if b.date ≤ before.date then
        let before ← lift (get bars (← lift (sub i 1)))
        throw (.unordered b.date before.date)
      else checkFrom bars (i + 1) rest
    else checkFrom bars (i + 1) rest

def check (bars : List (Bar α)) : Answer Bar.Fault Unit := checkFrom bars 0 bars

theorem checkFrom_succ {bars : List (Bar α)} (rest : List (Bar α)) :
    ∀ (i : Nat) (before : Bar α), bars[i]? = some before → bars.drop (i + 1) = rest →
      checkFrom bars (i + 1) rest = answer (Bar.checkFrom (i + 1) (some before.date) rest) := by
  induction rest with
  | nil => exact fun _ _ _ _ => rfl
  | cons b rest ih =>
    intro i before hbefore hdrop
    have hb : bars[i + 1]? = some b := by rw [← List.head?_drop, hdrop, List.head?_cons]
    have hrest : bars.drop (i + 1 + 1) = rest := by
      rw [← List.drop_drop, hdrop, List.drop_one, List.tail_cons]
    rw [checkFrom, Bar.checkFrom]
    simp only [Nat.zero_lt_succ, if_true, sub_eq (Nat.le_add_left 1 i), Nat.add_sub_cancel,
      get_of_getElem? hbefore, lift_ok_bind, throw_eq_answer, ih (i + 1) b hb hrest]
    split_ifs <;> rfl

theorem check_eq (bars : List (Bar α)) : check bars = answer (Bar.check bars) := by
  cases bars with
  | nil => rfl
  | cons b rest =>
    have hrest : checkFrom (b :: rest) (0 + 1) rest = answer (Bar.checkFrom (0 + 1) (some b.date) rest) :=
      checkFrom_succ rest 0 b rfl rfl
    rw [check, checkFrom, Bar.check, Bar.checkFrom]
    simp only [Nat.lt_irrefl, if_false, throw_eq_answer, hrest]
    split_ifs <;> rfl

end

/-! ## The length of the history -/

/-- Asks for enough bars, and names the operand that lacks them. -/
def checkHistory (r : Rule α) (bars : List (Bar α)) : Answer (Run.Fault α) Unit := do
  let required ← lift (requiredBars r)
  if required ≤ bars.length then pure ()
  else
    match ← lift (limitingCondition? r) with
    | some c => throw (.shortHistory (some (← lift (limitingOperand c))) required bars.length)
    | none => throw (.shortHistory none required bars.length)

theorem checkHistory_eq {r : Rule α} (h : ∀ c ∈ r.conditions, c.requiredBars < 2 ^ 64)
    (bars : List (Bar α)) : checkHistory r bars = answer (r.checkHistory bars) := by
  rw [checkHistory, requiredBars_eq h, lift_ok_bind, Rule.checkHistory]
  split_ifs
  · rfl
  · rw [limitingCondition?_eq h, lift_ok_bind]
    cases hlimiting : r.limitingCondition? with
    | none => rfl
    | some c =>
      simp only [limitingOperand_eq (h c (Rule.limitingCondition?_mem hlimiting)), lift_ok_bind]
      rfl

/-! ## The window -/

/-- The number of elements in front of the first one that does not pass a test. -/
def partitionPoint {β : Type} (test : β → Bool) (xs : List β) : Nat := (xs.takeWhile test).length

/-- The position of the first bar in a window. -/
def windowStart (w : Window) (bars : List (Bar α)) : Nat :=
  match w.start with
  | some d => partitionPoint (fun b => decide (b.date < d)) bars
  | none => 0

/-- The position behind the last bar in a window. -/
def windowStop (w : Window) (bars : List (Bar α)) : Nat :=
  match w.stop with
  | some d => partitionPoint (fun b => decide (b.date ≤ d)) bars
  | none => bars.length

section

variable {β : Type} {bars : List (Bar α)}

theorem take_partitionPoint (test : β → Bool) (xs : List β) :
    xs.take (partitionPoint test xs) = xs.takeWhile test :=
  (List.prefix_iff_eq_take.mp (List.takeWhile_prefix test)).symm

theorem drop_partitionPoint (test : β → Bool) (xs : List β) :
    xs.drop (partitionPoint test xs) = xs.dropWhile test := by
  have hsplit := (List.take_append_drop (partitionPoint test xs) xs).trans
    (List.takeWhile_append_dropWhile (p := test)).symm
  rw [take_partitionPoint] at hsplit
  exact List.append_cancel_left hsplit

theorem partitionPoint_take (test : β → Bool) (xs : List β) (n : Nat) :
    partitionPoint test (xs.take n) = min n (partitionPoint test xs) := by
  rw [partitionPoint, ← List.take_takeWhile, List.length_take, partitionPoint]

theorem partitionPoint_map {γ : Type} (f : β → γ) (test : γ → Bool) (xs : List β) :
    partitionPoint test (xs.map f) = partitionPoint (fun x => test (f x)) xs := by
  rw [partitionPoint, List.takeWhile_map, List.length_map]
  rfl

theorem windowStart_eq (w : Window) (bars : List (Bar α)) :
    windowStart w bars = partitionPoint (fun b => !w.isReached b.date) bars := by
  obtain ⟨start, stop⟩ := w
  cases start with
  | none => cases bars <;> rfl
  | some d =>
    refine congrArg (fun test => partitionPoint test bars) (funext fun b => ?_)
    simp only [Window.isReached, ← decide_not]
    exact decide_eq_decide.mpr (Int.not_le (a := d.day)).symm

theorem windowStop_eq (w : Window) (bars : List (Bar α)) :
    windowStop w bars = partitionPoint (fun b => w.isOpen b.date) bars := by
  obtain ⟨start, stop⟩ := w
  cases stop with
  | none => exact congrArg List.length (List.takeWhile_eq_self_iff.mpr fun _ _ => rfl).symm
  | some d => rfl

theorem windowStop_le (w : Window) (bars : List (Bar α)) : windowStop w bars ≤ bars.length := by
  rw [windowStop_eq]
  exact (List.takeWhile_prefix _).length_le

/-- What lies in a window is the piece between its two positions. -/
theorem cut_eq (w : Window) {signal : List Bool} (hlength : bars.length = signal.length) :
    w.cut (·.1.date) (bars.zip signal) =
      ((bars.zip signal).take (windowStop w bars)).drop (windowStart w bars) := by
  have hpoint (test : Date → Bool) : partitionPoint (fun b => test b.date) bars =
      partitionPoint (fun m => test m.1.date) (bars.zip signal) := by
    conv_lhs => rw [← List.map_fst_zip hlength.le, partitionPoint_map]
  rw [windowStop_eq, windowStart_eq, hpoint, hpoint fun d => !w.isReached d, Window.cut, ← drop_partitionPoint,
    ← take_partitionPoint, partitionPoint_take, List.drop_take, List.drop_take]
  rcases Nat.le_total (partitionPoint (fun m => w.isOpen m.1.date) (bars.zip signal))
    (partitionPoint (fun m => !w.isReached m.1.date) (bars.zip signal)) with h | h
  · rw [Nat.min_eq_left h, Nat.sub_self, Nat.sub_eq_zero_of_le h, List.take_zero, List.take_zero]
  · rw [Nat.min_eq_right h]

theorem map_fst_cut (w : Window) {signal : List Bool}
    (hlength : bars.length = signal.length) :
    (w.cut (·.1.date) (bars.zip signal)).map (·.1) = (bars.take (windowStop w bars)).drop (windowStart w bars) := by
  rw [cut_eq w hlength, List.map_drop, List.map_take, List.map_fst_zip hlength.le]

theorem map_snd_cut (w : Window) {signal : List Bool}
    (hlength : bars.length = signal.length) :
    (w.cut (·.1.date) (bars.zip signal)).map (·.2) =
      (signal.take (windowStop w bars)).drop (windowStart w bars) := by
  rw [cut_eq w hlength, List.map_drop, List.map_take, List.map_snd_zip hlength.ge]

/-- Nothing lies in a window whose end is not behind its beginning. -/
theorem isEmpty_cut (w : Window) {signal : List Bool}
    (hlength : bars.length = signal.length) :
    (w.cut (·.1.date) (bars.zip signal)).isEmpty = decide (windowStop w bars ≤ windowStart w bars) := by
  have hstop := windowStop_le w bars
  rw [cut_eq w hlength, Bool.eq_iff_iff, List.isEmpty_iff_length_eq_zero, decide_eq_true_iff, List.length_drop,
    List.length_take, List.length_zip]
  omega

end

/-! ## The walk along the window -/

variable [Scalar α]

/-- The trade between the positions of an entry and an exit. -/
def closeTrade (d : Direction) (window : List (Bar α)) (entry exit : Nat) (reason : ExitReason) :
    Answer (BadReturn α) (Trade α) := do
  let entryBar ← lift (get window entry)
  let exitBar ← lift (get window exit)
  answer (Holding.close d ⟨entryBar, exitBar, reason⟩)

/-- The trades from a position on, where `entry` is the position of the entry that is open in front of it. -/
def simulateFrom (d : Direction) (window : List (Bar α)) (entry : Option Nat) (i : Nat) :
    List Bool → Answer (BadReturn α) (List (Trade α))
  | [] =>
    match entry with
    | some e => do
      let trade ← closeTrade d window e (window.length - 1) .endOfData
      pure [trade]
    | none => pure []
  | fires :: rest =>
    match entry with
    | none =>
      if fires && decide (i < window.length - 1) then do
        let bar ← lift (get window i)
        if ((0 : Nat) : α) < bar.close then simulateFrom d window (some i) (i + 1) rest
        else simulateFrom d window none (i + 1) rest
      else simulateFrom d window none (i + 1) rest
    | some e =>
      if !fires then do
        let trade ← closeTrade d window e i .signal
        let trades ← simulateFrom d window none (i + 1) rest
        pure (trade :: trades)
      else simulateFrom d window (some e) (i + 1) rest

def simulate (d : Direction) (window : List (Bar α)) (signal : List Bool) :
    Answer (BadReturn α) (List (Trade α)) :=
  simulateFrom d window none 0 signal

theorem closeTrade_eq {d : Direction} {window : List (Bar α)} {entry exit : Nat} {e b : Bar α}
    {reason : ExitReason} (he : window[entry]? = some e) (hb : window[exit]? = some b) :
    closeTrade d window entry exit reason = answer (Holding.close d ⟨e, b, reason⟩) := by
  rw [closeTrade, get_of_getElem? he, lift_ok_bind, get_of_getElem? hb, lift_ok_bind]

/-- A trade in front of others. -/
theorem answer_mapM_cons (d : Direction) (h : Holding α) (hs : List (Holding α)) :
    (answer (Holding.close d h) >>= fun trade =>
      answer (hs.mapM (Holding.close d)) >>= fun trades => pure (trade :: trades)) =
        answer ((h :: hs).mapM (Holding.close d)) := by
  rw [List.mapM_cons]
  exact answer_bind fun trade _ => answer_bind fun trades _ => rfl

theorem isEmpty_zip {β γ : Type} {xs : List β} {ys : List γ} (h : xs.length = ys.length) :
    (xs.zip ys).isEmpty = ys.isEmpty := by
  match xs, ys, h with
  | [], [], _ | _ :: _, _ :: _, _ => rfl

/-- A position stands in front of the last one if there is something behind it. -/
theorem decide_lt_last {β : Type} {rest : List β} {i n : Nat} (h : i + (rest.length + 1) = n) :
    decide (i < n - 1) = !rest.isEmpty := by
  cases rest with
  | nil => exact decide_eq_false (by rw [List.length_nil] at h; omega)
  | cons f rest => exact decide_eq_true (by rw [List.length_cons] at h; omega)

/-- In front of a position the walk is where the search for holdings is, with the position of an entry in place
of its bar. The two differ behind the last bar alone: there the search has closed what was open. -/
theorem simulateFrom_eq (d : Direction) (window : List (Bar α)) (rest : List Bool) :
    ∀ i, i + rest.length = window.length →
      simulateFrom d window none i rest =
          answer ((holdingsFrom none ((window.drop i).zip rest)).mapM (Holding.close d)) ∧
        ∀ (e : Nat) (entry : Bar α), window[e]? = some entry → rest ≠ [] →
          simulateFrom d window (some e) i rest =
            answer ((holdingsFrom (some entry) ((window.drop i).zip rest)).mapM (Holding.close d)) := by
  induction rest with
  | nil =>
    intro i _
    rw [List.zip_nil_right]
    exact ⟨rfl, fun _ _ _ hne => absurd rfl hne⟩
  | cons fires rest ih =>
    intro i hlength
    rw [List.length_cons] at hlength
    obtain ⟨hsearch, hhold⟩ := ih (i + 1) (by omega)
    have hi : i < window.length := by omega
    have hbar : window[i]? = some window[i] := List.getElem?_eq_getElem hi
    have hempty : ((window.drop (i + 1)).zip rest).isEmpty = rest.isEmpty :=
      isEmpty_zip (by rw [List.length_drop]; omega)
    have hlast : decide (i < window.length - 1) = !rest.isEmpty :=
      decide_lt_last (by omega)
    rw [List.drop_eq_getElem_cons hi, List.zip_cons_cons]
    constructor
    · -- out of the market: the bar is an entry, or the search goes on
      rw [simulateFrom, holdingsFrom, hempty, hlast, get_of_getElem? hbar]
      cases hgo : fires && !rest.isEmpty with
      | false => exact hsearch
      | true =>
        have hne : rest ≠ [] := fun h => by simp [h] at hgo
        by_cases hpos : ((0 : Nat) : α) < window[i].close
        · simp only [if_true, lift_ok_bind, hpos, decide_true, Bool.and_self]
          exact hhold i _ hbar hne
        · simp only [if_true, lift_ok_bind, hpos, if_false, decide_false, Bool.and_false, Bool.false_eq_true]
          exact hsearch
    · -- in the market: the bar is the exit, or the position stays open, or the bars end
      intro e entry he _
      rw [simulateFrom, holdingsFrom, hempty]
      cases fires with
      | false =>
        simp only [Bool.not_false, if_true, closeTrade_eq he hbar, hsearch]
        exact answer_mapM_cons d _ _
      | true =>
        cases rest with
        | nil =>
          rw [List.length_nil] at hlength
          have hend : window.length - 1 = i := by omega
          simp only [Bool.not_true, Bool.false_eq_true, if_false, simulateFrom, hend, closeTrade_eq he hbar,
            List.isEmpty_nil, if_true]
          exact answer_mapM_cons d _ []
        | cons f rest' => exact hhold e entry he (List.cons_ne_nil f rest')

theorem simulate_eq (d : Direction) {window : List (Bar α)} {signal : List Bool}
    (hlength : signal.length = window.length) :
    simulate d window signal = answer (Backtest.simulate d window signal) :=
  (simulateFrom_eq d window signal 0 (by rw [hlength, Nat.zero_add])).1

/-! ## The whole run -/

/-- The part of a run behind its checks, where `combined` is the signal of the rule along the bars. -/
def tradeWindow (r : Rule α) (bars : List (Bar α)) (combined : List Bool) (w : Window) :
    Answer (Run.Fault α) (Run α) := do
  let start := windowStart w bars
  let stop := windowStop w bars
  if stop ≤ start then throw (.emptyWindow w)
  else
    let _first ← lift (get bars start)
    let _last ← lift (get bars (← lift (sub stop 1)))
    let inside ← lift (slice bars start stop)
    let fires ← lift (slice combined start stop)
    let trades ← refusing .badReturn (simulate r.direction inside fires)
    pure ⟨r.ticker, inside, fires, trades⟩

/-- Runs a rule over a history, where the series are checked in an order of one's own. -/
def runInOrder (order : Indicator.Table α → List (Indicator.Series α)) (r : Rule α)
    (bars : List (Bar α)) (w : Window) : Answer (Run.Fault α) (Run α) := do
  refusing .badHistory (check bars)
  checkHistory r bars
  let table ← lift (table r.indicators bars)
  answer (Rule.checkFinite (order table))
  let combined ← lift (signal r table bars)
  tradeWindow r bars combined w

theorem tradeWindow_eq (r : Rule α) {bars : List (Bar α)} {combined : List Bool}
    (hlength : bars.length = combined.length) (w : Window) :
    tradeWindow r bars combined w = answer (
      let marked := w.cut (·.1.date) (bars.zip combined)
      if marked.isEmpty then .error (.emptyWindow w)
      else match Backtest.simulate r.direction (marked.map (·.1)) (marked.map (·.2)) with
        | .error trade => .error (.badReturn trade)
        | .ok trades => .ok ⟨r.ticker, marked.map (·.1), marked.map (·.2), trades⟩) := by
  have hstop := windowStop_le w bars
  simp only [map_fst_cut w hlength, map_snd_cut w hlength, isEmpty_cut w hlength, decide_eq_true_eq]
  rw [tradeWindow]
  split_ifs with hempty
  · rfl
  · have hlt : windowStart w bars < bars.length := by omega
    have hlast : windowStop w bars - 1 < bars.length := by omega
    simp only [get_eq hlt, sub_eq (show 1 ≤ windowStop w bars by omega), get_eq hlast,
      slice_eq (Nat.le_of_not_le hempty) hstop, slice_eq (Nat.le_of_not_le hempty) (hlength ▸ hstop), lift_ok_bind]
    rw [simulate_eq _ (by simp only [List.length_drop, List.length_take, hlength])]
    rcases Backtest.simulate r.direction _ _ with trade | trades <;> rfl

/-- **A run by positions.** Whatever the bars are, and in whatever order the series are checked, a run of a
rule with a condition never traps and gives what the program gives. -/
theorem runInOrder_eq (order : Indicator.Table α → List (Indicator.Series α)) {r : Rule α}
    (hne : r.conditions ≠ []) (hrequired : ∀ c ∈ r.conditions, c.requiredBars < 2 ^ 64)
    {bars : List (Bar α)} (hbars : bars.length < 2 ^ 64) (w : Window) :
    runInOrder order r bars w = answer (r.runInOrder order bars w) := by
  have hlength : bars.length = (r.signal (Indicator.table r.indicators bars) bars).length :=
    (Rule.length_signal hne _ bars).symm
  rw [runInOrder, Rule.runInOrder, check_eq, checkHistory_eq hrequired, table_eq _ hbars]
  simp only [lift_ok_bind, signal_eq, tradeWindow_eq r hlength w]
  rcases Bar.check bars with fault | ⟨⟨⟩⟩
  · rfl
  rcases r.checkHistory bars with fault | ⟨⟨⟩⟩
  · rfl
  rcases Rule.checkFinite (order (Indicator.table r.indicators bars)) with fault | ⟨⟨⟩⟩
  · rfl
  cases (w.cut (·.1.date) (bars.zip (r.signal (Indicator.table r.indicators bars) bars))).isEmpty <;> rfl

/-- A rule without a condition has a signal of no bars, and the window is no piece of it. -/
example : (runInOrder id ⟨"ACME", .long, [], .all⟩ (Bar.flatHistory [1]) .everything).run = .error .slice :=
  rfl

end Backtest.Checked
