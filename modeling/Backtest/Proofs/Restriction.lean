import Backtest.Failure
import Backtest.Proofs.Equity
import Mathlib.Data.List.Nodup

/-!
# A window restricts a run

A rule is run over a whole history and a window is cut out of the bars and of the signal afterwards. The cut looks for
two bounds, the first bar that is reached and the last one that is open, which is right only because the dates of an
accepted history ascend: then the tests of the bounds change once along the bars, and what lies between the bounds is
all that lies in the window (`Window.cut_eq_filter`), also where the bounds are reversed, or meet no bar.

So the signal of a run is what the window leaves of the signal on all bars, which no window has a part in
(`Rule.runInOrder_restricts`): a date has the same bit in every window that it lies in.
-/

namespace Backtest

/-! ## Tests that change once along a list -/

section

variable {β : Type} {p : β → Bool} {xs : List β}

/-- If a test that is passed was passed by all in front, then what stands in front of the first failure is all that
passes. -/
theorem takeWhile_eq_filter (h : xs.Pairwise fun x y => p y = true → p x = true) : xs.takeWhile p = xs.filter p := by
  induction xs with
  | nil => simp
  | cons x xs ih =>
    obtain ⟨hx, hxs⟩ := List.pairwise_cons.mp h
    by_cases hp : p x = true
    · simp [hp, ih hxs]
    · have hnone : ∀ y ∈ xs, ¬ p y = true := fun y hy hpy => hp (hx y hy hpy)
      simpa [hp] using hnone

/-- If a test that is passed is passed by all behind, then what stands from the first success on is all that passes. -/
theorem dropWhile_not_eq_filter (h : xs.Pairwise fun x y => p x = true → p y = true) :
    (xs.dropWhile fun x => !p x) = xs.filter p := by
  induction xs with
  | nil => simp
  | cons x xs ih =>
    obtain ⟨hx, hxs⟩ := List.pairwise_cons.mp h
    by_cases hp : p x = true
    · have hall : ∀ y ∈ xs, p y = true := fun y hy => hx y hy hp
      simp [hp, List.filter_eq_self.mpr hall]
    · simp [hp, ih hxs]

end

/-! ## What lies in a window -/

namespace Window

/-- A date lies in a window: it comes neither before its start nor behind its end, where they are set. -/
def Contains (w : Window) (d : Date) : Prop :=
  (∀ s ∈ w.start, s ≤ d) ∧ ∀ s ∈ w.stop, d ≤ s

variable {w : Window} {d e : Date}

theorem isReached_iff : w.isReached d = true ↔ ∀ s ∈ w.start, s ≤ d := by
  obtain ⟨start, stop⟩ := w
  cases start <;> simp [isReached]

theorem isOpen_iff : w.isOpen d = true ↔ ∀ s ∈ w.stop, d ≤ s := by
  obtain ⟨start, stop⟩ := w
  cases stop <;> simp [isOpen]

theorem contains_iff : w.Contains d ↔ (w.isOpen d && w.isReached d) = true := by
  rw [Bool.and_eq_true, isReached_iff, isOpen_iff, and_comm]
  rfl

instance (w : Window) (d : Date) : Decidable (w.Contains d) := decidable_of_iff _ contains_iff.symm

theorem isReached_mono (h : d < e) (hd : w.isReached d = true) : w.isReached e = true := by
  rw [isReached_iff] at *
  exact fun s hs => Date.le_trans (hd s hs) (Date.le_of_lt h)

theorem isOpen_anti (h : d < e) (he : w.isOpen e = true) : w.isOpen d = true := by
  rw [isOpen_iff] at *
  exact fun s hs => Date.le_trans (Date.le_of_lt h) (he s hs)

theorem contains_everything (d : Date) : everything.Contains d := by
  simp [Contains, everything]

/-- Nothing lies in a window that ends before it starts. -/
theorem not_contains_of_lt {s t : Date} (hs : w.start = some s) (ht : w.stop = some t) (h : t < s) (d : Date) :
    ¬ w.Contains d := by
  rintro ⟨hstart, hstop⟩
  exact Date.not_le.mpr h (Date.le_trans (hstart s hs) (hstop t ht))

/-- Of things whose dates ascend, the cut is all that lies in the window. -/
theorem cut_eq_filter {β : Type} (w : Window) {date : β → Date} {xs : List β}
    (h : xs.Pairwise fun x y => date x < date y) :
    w.cut date xs = xs.filter fun x => decide (w.Contains (date x)) := by
  have hopen : (xs.takeWhile fun x => w.isOpen (date x)) = xs.filter fun x => w.isOpen (date x) :=
    takeWhile_eq_filter (h.imp isOpen_anti)
  have hreached : ((xs.filter fun x => w.isOpen (date x)).dropWhile fun x => !w.isReached (date x)) =
      (xs.filter fun x => w.isOpen (date x)).filter fun x => w.isReached (date x) :=
    dropWhile_not_eq_filter ((h.filter _).imp isReached_mono)
  rw [cut, hopen, hreached, List.filter_filter]
  congr 1
  funext x
  rw [Bool.eq_iff_iff, decide_eq_true_iff, contains_iff, Bool.and_comm]

end Window

/-! ## What a window leaves of a run -/

/-- The bit of the signal of a run on a date, if a bar of its window has this date. -/
def Run.bitOn {α : Type} (run : Run α) (d : Date) : Option Bool :=
  ((run.window.zip run.signal).find? fun m => decide (m.1.date = d)).map (·.2)

/-- A run has the bars of a history that lie in a window, and what a signal on the history says at them. -/
structure Run.IsRestriction {α : Type} (run : Run α) (w : Window) (bars : List (Bar α)) (signal : List Bool) :
    Prop where
  /-- The signal has a bit for each bar of the history. -/
  aligned : signal.length = bars.length
  window : run.window = bars.filter fun b => decide (w.Contains b.date)
  signal : run.signal = ((bars.zip signal).filter fun m => decide (w.Contains m.1.date)).map (·.2)

/-- Among things that differ in their dates, each is found by its date. -/
theorem find?_date_of_mem {β : Type} {date : β → Date} {xs : List β} (hdates : (xs.map date).Nodup) {x : β}
    (hx : x ∈ xs) : (xs.find? fun y => decide (date y = date x)) = some x := by
  have hfound : (xs.find? fun y => decide (date y = date x)).isSome = true := by
    rw [List.find?_isSome]
    exact ⟨x, hx, by simp⟩
  obtain ⟨y, hy⟩ := Option.isSome_iff_exists.mp hfound
  have hdate : date y = date x := by simpa using List.find?_some hy
  rw [hy, List.inj_on_of_nodup_map hdates (List.mem_of_find?_eq_some hy) hx hdate]

/-- Picking pairs by what stands on the left picks the left parts. -/
theorem map_fst_filter_zip {β γ : Type} {xs : List β} {ys : List γ} (h : ys.length = xs.length) (p : β → Bool) :
    ((xs.zip ys).filter fun m => p m.1).map (·.1) = xs.filter p := by
  have hxs : (xs.zip ys).map (·.1) = xs := List.map_fst_zip h.ge
  rw [← congrArg (List.filter p) hxs, List.filter_map]
  rfl

namespace Run

variable {α : Type} {run : Run α}

/-- The bit on the date of a bar is the one that stands beside the bar. -/
theorem bitOn_date (hlength : run.signal.length = run.window.length) (hdates : (run.window.map (·.date)).Nodup)
    {i : Nat} {b : Bar α} (hb : run.window[i]? = some b) :
    ∃ bit, run.signal[i]? = some bit ∧ run.bitOn b.date = some bit := by
  obtain ⟨hi, rfl⟩ := List.getElem?_eq_some_iff.mp hb
  have hsignal : i < run.signal.length := by rwa [hlength]
  have hmem : (run.window[i], run.signal[i]) ∈ run.window.zip run.signal :=
    List.mem_of_getElem?
      (List.getElem?_zip_eq_some.mpr ⟨List.getElem?_eq_getElem hi, List.getElem?_eq_getElem hsignal⟩)
  have hfst : (run.window.zip run.signal).map (·.1) = run.window := List.map_fst_zip hlength.ge
  have hnodup : ((run.window.zip run.signal).map (·.1.date)).Nodup := by
    rwa [← hfst, List.map_map] at hdates
  refine ⟨run.signal[i], List.getElem?_eq_getElem hsignal, ?_⟩
  unfold bitOn
  rw [find?_date_of_mem hnodup hmem, Option.map_some]

namespace IsRestriction

variable {w : Window} {bars : List (Bar α)} {signal : List Bool}

theorem length_signal (h : run.IsRestriction w bars signal) : run.signal.length = run.window.length := by
  rw [h.signal, h.window, ← map_fst_filter_zip h.aligned, List.length_map, List.length_map]

/-- On a date that lies in the window, the bit is that of the whole signal. -/
theorem bitOn_eq (h : run.IsRestriction w bars signal) {d : Date} (hd : w.Contains d) :
    run.bitOn d = ((bars.zip signal).find? fun m => decide (m.1.date = d)).map (·.2) := by
  have hmarked : run.window.zip run.signal = (bars.zip signal).filter fun m => decide (w.Contains m.1.date) := by
    rw [h.signal, h.window, ← map_fst_filter_zip h.aligned, ← List.zip_of_prod rfl rfl]
  have htest : ∀ m : Bar α × Bool, (w.Contains m.1.date ∧ m.1.date = d) ↔ m.1.date = d := by
    intro m
    rw [and_iff_right_iff_imp]
    rintro rfl
    exact hd
  unfold bitOn
  simp only [hmarked, List.find?_filter, decide_eq_true_eq, htest]

/-- Nothing is left out of a window without bounds. -/
theorem of_everything (h : run.IsRestriction .everything bars signal) : run.window = bars ∧ run.signal = signal := by
  have hwindow := h.window
  have hsignal := h.signal
  simp only [Window.contains_everything, decide_true, List.filter_true] at hwindow hsignal
  exact ⟨hwindow, hsignal.trans (List.map_snd_zip h.aligned.le)⟩

end IsRestriction

end Run

namespace Rule

section

variable {α : Type} [Scalar α]

/-- The signal of a rule on all bars of a history, in which no window has a part. -/
def fullSignal (r : Rule α) (bars : List (Bar α)) : List Bool :=
  r.signal (Indicator.table r.indicators bars) bars

variable {order : Indicator.Table α → List (Indicator.Series α)} {r : Rule α} {bars : List (Bar α)} {w : Window}

/-- Of the bars of an accepted history and their bits, the cut is all that lies in the window. -/
theorem cut_marked_eq_filter (hcheck : Bar.check bars = .ok ()) (w : Window) (signal : List Bool) :
    w.cut (·.1.date) (bars.zip signal) = (bars.zip signal).filter fun m => decide (w.Contains m.1.date) := by
  have hdates := (Bar.ascending_of_check hcheck).sublist ((map_fst_zip_sublist bars signal).map _)
  rw [List.map_map, List.pairwise_map] at hdates
  exact w.cut_eq_filter hdates

/-- A run is what its window leaves of the history and of the signal on it. -/
theorem isRestriction_of_runInOrder (hr : r.conditions ≠ []) {run : Run α}
    (hrun : r.runInOrder order bars w = .ok run) : run.IsRestriction w bars (r.fullSignal bars) := by
  have haligned : (r.fullSignal bars).length = bars.length := length_signal hr _ bars
  obtain ⟨marked, hmarked, -, hcheck, -, -, trades, -, rfl⟩ := runInOrder_eq_ok_iff.mp hrun
  rw [cut_marked_eq_filter hcheck] at hmarked
  subst hmarked
  exact ⟨haligned, map_fst_filter_zip haligned fun b => decide (w.Contains b.date), rfl⟩

/-- If all checks pass and no bar lies in the window, the window is refused. -/
theorem runInOrder_eq_emptyWindow (hcheck : Bar.check bars = .ok ()) (hhistory : r.checkHistory bars = .ok ())
    (hfinite : checkFinite (order (Indicator.table r.indicators bars)) = .ok ())
    (hnone : ∀ b ∈ bars, ¬ w.Contains b.date) : r.runInOrder order bars w = .error (.emptyWindow w) := by
  have hempty : w.cut (·.1.date) (bars.zip (r.signal (Indicator.table r.indicators bars) bars)) = [] := by
    rw [cut_marked_eq_filter hcheck, List.filter_eq_nil_iff]
    intro m hm
    simpa using hnone m.1 (List.of_mem_zip hm).1
  unfold runInOrder
  simp [hcheck, hhistory, hfinite, hempty, bind, Except.bind, throw, throwThe, MonadExceptOf.throw]

end

/-- **A window restricts a run.** A run in a window has the bars that lie in it and the signal at them, which is that
of the whole history: the run without bounds has all bars and all of the signal. So the bit on a date is the same in
every window that the date lies in. If all checks pass but no bar lies in the window, as when its bounds are
reversed, then one bar is asked for where there is none. -/
theorem runInOrder_restricts {r : Rule Float} (hr : r.conditions ≠ []) (bars : List (Bar Float)) :
    (∀ order w (run : Run Float), r.runInOrder order bars w = .ok run →
      run.IsRestriction w bars (r.fullSignal bars) ∧
        ∀ (i : Nat) (b : Bar Float), run.window[i]? = some b →
          ∃ bit, run.signal[i]? = some bit ∧ run.bitOn b.date = some bit) ∧
    (∀ order run, r.runInOrder order bars .everything = .ok run →
      run.window = bars ∧ run.signal = r.fullSignal bars) ∧
    (∀ order order' w w' run run', r.runInOrder order bars w = .ok run → r.runInOrder order' bars w' = .ok run' →
      ∀ d, w.Contains d → w'.Contains d → run.bitOn d = run'.bitOn d) ∧
    ∀ order w, Bar.check bars = .ok () → r.checkHistory bars = .ok () →
      checkFinite (order (Indicator.table r.indicators bars)) = .ok () →
      ((∀ b ∈ bars, ¬ w.Contains b.date) ∨ ∃ s e, w.start = some s ∧ w.stop = some e ∧ e < s) →
      (r.runInOrder order bars w).mapError (Failure.ofRunFault r.ticker) =
        .error (.insufficientHistory r.ticker w.text 1 0) := by
  refine ⟨?_, ?_, ?_, ?_⟩
  · intro order w run hrun
    have hrestriction := isRestriction_of_runInOrder hr hrun
    obtain ⟨-, hdates, -⟩ := runInOrder_dates hrun
    exact ⟨hrestriction, fun i b => Run.bitOn_date hrestriction.length_signal (hdates.imp Date.ne_of_lt)⟩
  · intro order run hrun
    exact (isRestriction_of_runInOrder hr hrun).of_everything
  · intro order order' w w' run run' hrun hrun' d hd hd'
    rw [(isRestriction_of_runInOrder hr hrun).bitOn_eq hd, (isRestriction_of_runInOrder hr hrun').bitOn_eq hd']
  · intro order w hcheck hhistory hfinite hempty
    have hnone : ∀ b ∈ bars, ¬ w.Contains b.date := by
      rcases hempty with hnone | ⟨s, e, hs, he, hlt⟩
      · exact hnone
      · exact fun b _ => Window.not_contains_of_lt hs he hlt b.date
    rw [runInOrder_eq_emptyWindow hcheck hhistory hfinite hnone]
    rfl

/-- In a window that starts at the third bar, the mean of two closes is there from its first bar on. The bar of the
fifth day has its bit in a later window too, and a window whose bounds are reversed is refused. -/
theorem runInOrder_restricts_meanAbove :
    (meanAbove 2).conditions ≠ [] ∧
      ∃ run run' : Run Float,
        (meanAbove 2).runInOrder id (Bar.flatHistory [1, 3, 4, 1, 3, 5]) ⟨some ⟨2⟩, some ⟨4⟩⟩ = .ok run ∧
        (meanAbove 2).runInOrder List.reverse (Bar.flatHistory [1, 3, 4, 1, 3, 5]) ⟨some ⟨4⟩, none⟩ = .ok run' ∧
        run.signal = [true, true, false] ∧ run'.signal = [false, true] ∧
        run.IsRestriction ⟨some ⟨2⟩, some ⟨4⟩⟩ (Bar.flatHistory [1, 3, 4, 1, 3, 5])
          ((meanAbove 2).fullSignal (Bar.flatHistory [1, 3, 4, 1, 3, 5])) ∧
        run.bitOn ⟨4⟩ = run'.bitOn ⟨4⟩ ∧
        ((meanAbove 2).runInOrder id (Bar.flatHistory [1, 3, 4, 1, 3, 5]) ⟨some ⟨4⟩, some ⟨2⟩⟩).mapError
            (Failure.ofRunFault "ACME") =
          .error (.insufficientHistory "ACME" "analysis window 1970-01-05 to 1970-01-03" 1 0) := by
  have hr : (meanAbove 2).conditions ≠ [] := by simp [meanAbove]
  obtain ⟨run, hrun, hsignal⟩ : ∃ run : Run Float,
      (meanAbove 2).runInOrder id (Bar.flatHistory [1, 3, 4, 1, 3, 5]) ⟨some ⟨2⟩, some ⟨4⟩⟩ = .ok run ∧
      run.signal = [true, true, false] := ⟨_, rfl, rfl⟩
  obtain ⟨run', hrun', hsignal'⟩ : ∃ run : Run Float,
      (meanAbove 2).runInOrder List.reverse (Bar.flatHistory [1, 3, 4, 1, 3, 5]) ⟨some ⟨4⟩, none⟩ = .ok run ∧
      run.signal = [false, true] := ⟨_, rfl, rfl⟩
  obtain ⟨hrestricts, -, hbit, hempty⟩ := runInOrder_restricts hr (Bar.flatHistory [1, 3, 4, 1, 3, 5])
  exact ⟨hr, run, run', hrun, hrun', hsignal, hsignal', (hrestricts _ _ _ hrun).1,
    hbit _ _ _ _ _ _ hrun hrun' ⟨4⟩ (by decide) (by decide),
    hempty _ _ rfl rfl rfl (.inr ⟨⟨4⟩, ⟨2⟩, rfl, rfl, by decide⟩)⟩

end Rule

end Backtest
