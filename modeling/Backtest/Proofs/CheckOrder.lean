import Mathlib.Data.List.Nodup
import Mathlib.Data.List.Perm.Basic
import Backtest.Proofs.Trades
import Backtest.Run

/-!
# The order of the checks

`Rule.runInOrder` checks the series of a rule to be finite in an order that it is given. What a run does
apart from this check does not depend on the order, and whether the check fails does not either. But a
failure names the series that it found first: so a rule with two series that are not finite is refused with
one message in one order, and with another message in another one (`Rule.runInOrder_twoFaults`).

`Rule.runInOrder_orders` says when the order matters: exactly when the history is accepted and two series
at least are not finite. And even then every order gives a failure of this kind.
-/

namespace Backtest

variable {α : Type} [Scalar α]

namespace Indicator

/-- What is wrong with a series, if anything. -/
def Series.fault? (s : Series α) : Option NotFinite :=
  match s.checkFinite with
  | .ok () => none
  | .error fault => some fault

/-- What is wrong with the series of a table. -/
def Table.faults (t : Table α) : List NotFinite := t.filterMap Series.fault?

/-- A way to go through the series of a table, each once. -/
def IsOrder (order : Table α → List (Series α)) : Prop := ∀ t, (order t).Perm t

omit [Scalar α] in
theorem isOrder_id : IsOrder (α := α) id := fun _ => .refl _

omit [Scalar α] in
theorem isOrder_reverse : IsOrder (α := α) List.reverse := fun t => List.reverse_perm t

/-- The order that begins with the series of an indicator. -/
def beginningWith (i : Indicator) (t : Table α) : List (Series α) :=
  t.filter (fun s => s.indicator = i) ++ t.filter fun s => !decide (s.indicator = i)

omit [Scalar α] in
theorem isOrder_beginningWith (i : Indicator) : IsOrder (beginningWith (α := α) i) :=
  fun t => List.filter_append_perm (fun s : Series α => decide (s.indicator = i)) t

theorem Series.indicator_of_fault? {s : Series α} {fault : NotFinite} (h : s.fault? = some fault) :
    fault.indicator = s.indicator := by
  rw [fault?, checkFinite] at h
  cases hfind : s.points.find? (fun p => !p.isFinite) with
  | none => simp [hfind] at h
  | some p =>
    simp only [hfind, Option.some.injEq] at h
    rw [← h]

/-! ## A table has one series for each indicator -/

theorem nodup_distinct (is : List Indicator) : (distinct is).Nodup := by
  have hfold : ∀ (is seen : List Indicator), seen.Nodup →
      (is.foldl (fun seen i => if seen.contains i then seen else seen ++ [i]) seen).Nodup := by
    intro is
    induction is with
    | nil => exact fun seen h => h
    | cons i is ih =>
      intro seen h
      rw [List.foldl_cons]
      split_ifs with hi
      · exact ih seen h
      · refine ih _ (List.nodup_append.mpr ⟨h, List.nodup_singleton i, ?_⟩)
        rintro a ha b hb rfl
        rw [List.mem_singleton] at hb
        exact hi (by simpa [← hb] using ha)
  exact hfold is [] List.nodup_nil

theorem nodup_table (is : List Indicator) (bars : List (Bar α)) :
    ((table is bars).map (·.indicator)).Nodup := by
  have hsame : (table is bars).map (·.indicator) = distinct is := by
    rw [table, List.map_map]
    exact List.map_id _
  rw [hsame]
  exact nodup_distinct is

/-- Two faults of a table are of two indicators. -/
theorem Table.exists_two_faults {t : Table α} (hnodup : (t.map (·.indicator)).Nodup)
    (htwo : 2 ≤ t.faults.length) :
    ∃ f ∈ t.faults, ∃ g ∈ t.faults, f.indicator ≠ g.indicator := by
  have hsub : (t.faults.map (·.indicator)).Sublist (t.map (·.indicator)) := by
    clear hnodup htwo
    induction t with
    | nil => exact List.Sublist.refl _
    | cons s t ih =>
      cases hs : s.fault? with
      | none =>
        rw [faults, List.filterMap_cons_none hs]
        exact ih.cons _
      | some fault =>
        rw [faults, List.filterMap_cons_some hs, List.map_cons, List.map_cons,
          Series.indicator_of_fault? hs]
        exact ih.cons_cons _
  have hfaults := hsub.nodup hnodup
  match hl : t.faults, htwo with
  | f :: g :: rest, _ =>
    rw [hl, List.map_cons, List.map_cons, List.nodup_cons] at hfaults
    exact ⟨f, by simp, g, by simp, fun h => hfaults.1 (by simp [h])⟩

end Indicator

namespace Rule

open Indicator (Table Series NotFinite IsOrder beginningWith)

/-! ## The check -/

/-- The check reports the first fault. -/
theorem checkFinite_eq (l : List (Series α)) :
    checkFinite l = match (l.filterMap Series.fault?).head? with
      | none => .ok ()
      | some fault => .error (.notFinite fault) := by
  induction l with
  | nil => rfl
  | cons s l ih =>
    rw [checkFinite]
    cases hs : s.checkFinite with
    | ok _ =>
      have hnone : s.fault? = none := by rw [Series.fault?, hs]
      rw [List.filterMap_cons_none hnone]
      exact ih
    | error fault =>
      have hsome : s.fault? = some fault := by rw [Series.fault?, hs]
      rw [List.filterMap_cons_some hsome, List.head?_cons]

/-- In an order, the check passes if there is no fault, and else reports one. -/
theorem checkFinite_order {order : Table α → List (Series α)} (ho : IsOrder order) (t : Table α) :
    (t.faults = [] ∧ checkFinite (order t) = .ok ()) ∨
      ∃ fault ∈ t.faults, checkFinite (order t) = .error (.notFinite fault) := by
  have hperm : ((order t).filterMap Series.fault?).Perm t.faults := (ho t).filterMap _
  rw [checkFinite_eq]
  cases hfaults : (order t).filterMap Series.fault? with
  | nil => exact .inl ⟨(hfaults ▸ hperm).symm.eq_nil, rfl⟩
  | cons fault rest => exact .inr ⟨fault, (hperm.mem_iff).mp (by simp [hfaults]), rfl⟩

/-- The order that begins with an indicator reports a fault of this indicator, if there is one. -/
theorem checkFinite_beginningWith {t : Table α} {fault : NotFinite} (h : fault ∈ t.faults) :
    ∃ first, first.indicator = fault.indicator ∧
      checkFinite (beginningWith fault.indicator t) = .error (.notFinite first) := by
  obtain ⟨s, hs, hfault⟩ := List.mem_filterMap.mp h
  have hown : s.indicator = fault.indicator := (Series.indicator_of_fault? hfault).symm
  rw [checkFinite_eq, beginningWith, List.filterMap_append]
  cases hfaults : (t.filter fun s => s.indicator = fault.indicator).filterMap Series.fault? with
  | nil =>
    have hnone := List.filterMap_eq_nil_iff.mp hfaults s (by simp [hs, hown])
    rw [hnone] at hfault
    cases hfault
  | cons first rest =>
    refine ⟨first, ?_, rfl⟩
    have hmem : first ∈ (t.filter fun s => s.indicator = fault.indicator).filterMap Series.fault? := by
      simp [hfaults]
    obtain ⟨u, hu, hfirst⟩ := List.mem_filterMap.mp hmem
    rw [Series.indicator_of_fault? hfirst]
    simpa using (List.mem_filter.mp hu).2

/-- With one fault at most, the check says the same in all orders. -/
theorem checkFinite_order_eq {t : Table α} (hone : t.faults.length ≤ 1) {order order' : Table α → List (Series α)}
    (ho : IsOrder order) (ho' : IsOrder order') : checkFinite (order t) = checkFinite (order' t) := by
  have hlist : ∀ {o : Table α → List (Series α)}, IsOrder o → (o t).filterMap Series.fault? = t.faults := by
    intro o ho
    have hperm : ((o t).filterMap Series.fault?).Perm t.faults := (ho t).filterMap _
    match hl : t.faults, hone with
    | [], _ => exact (hl ▸ hperm).eq_nil
    | [f], _ => exact List.perm_singleton.mp (hl ▸ hperm)
  rw [checkFinite_eq, checkFinite_eq, hlist ho, hlist ho']

/-! ## Runs -/

section

variable {r : Rule α} {bars : List (Bar α)} {w : Window}

/-- A history that is refused is refused before the check. -/
theorem runInOrder_of_refused (h : ¬ (Bar.check bars = .ok () ∧ r.checkHistory bars = .ok ())) :
    ∃ fault, ∀ order, r.runInOrder order bars w = .error fault := by
  cases hbars : Bar.check bars with
  | error fault => exact ⟨.badHistory fault, fun order => by rw [runInOrder, hbars]; rfl⟩
  | ok _ =>
    cases hlong : r.checkHistory bars with
    | error fault => exact ⟨fault, fun order => by rw [runInOrder, hbars, hlong]; rfl⟩
    | ok _ => exact absurd ⟨hbars, hlong⟩ h

/-- Behind a check that passes, a run does not depend on the order. -/
theorem runInOrder_of_accepted (hbars : Bar.check bars = .ok ()) (hlong : r.checkHistory bars = .ok ()) :
    ∃ result : Except (Run.Fault α) (Run α), ∀ order : Table α → List (Series α),
      r.runInOrder order bars w =
        checkFinite (order (Indicator.table r.indicators bars)) >>= fun _ => result := by
  refine ⟨r.runInOrder (fun _ => []) bars w, fun order => ?_⟩
  simp only [runInOrder, hbars, hlong]
  rfl

theorem runInOrder_of_notFinite (hbars : Bar.check bars = .ok ()) (hlong : r.checkHistory bars = .ok ())
    {order : Table α → List (Series α)} {fault : NotFinite}
    (h : checkFinite (order (Indicator.table r.indicators bars)) = .error (.notFinite fault)) :
    r.runInOrder order bars w = .error (.notFinite fault) := by
  obtain ⟨result, hrun⟩ := runInOrder_of_accepted (w := w) hbars hlong
  rw [hrun, h]
  rfl

variable (r bars w) in
/-- Two orders give the same result, or each of them reports a series that is not finite. -/
theorem runInOrder_eq_or_faults {order order' : Table α → List (Series α)} (ho : IsOrder order)
    (ho' : IsOrder order') :
    r.runInOrder order bars w = r.runInOrder order' bars w ∨
      ∃ fault ∈ (Indicator.table r.indicators bars).faults,
        ∃ fault' ∈ (Indicator.table r.indicators bars).faults,
          r.runInOrder order bars w = .error (.notFinite fault) ∧
            r.runInOrder order' bars w = .error (.notFinite fault') := by
  by_cases haccepted : Bar.check bars = .ok () ∧ r.checkHistory bars = .ok ()
  · obtain ⟨hbars, hlong⟩ := haccepted
    obtain ⟨result, hrun⟩ := runInOrder_of_accepted (w := w) hbars hlong
    rcases checkFinite_order ho (Indicator.table r.indicators bars) with ⟨hnone, hok⟩ | ⟨f, hf, herr⟩
    · rcases checkFinite_order ho' (Indicator.table r.indicators bars) with ⟨-, hok'⟩ | ⟨f', hf', -⟩
      · exact .inl (by rw [hrun, hrun, hok, hok'])
      · rw [hnone] at hf'
        cases hf'
    · rcases checkFinite_order ho' (Indicator.table r.indicators bars) with ⟨hnone, -⟩ | ⟨f', hf', herr'⟩
      · rw [hnone] at hf
        cases hf
      · exact .inr ⟨f, hf, f', hf', runInOrder_of_notFinite hbars hlong herr,
          runInOrder_of_notFinite hbars hlong herr'⟩
  · obtain ⟨fault, hrun⟩ := runInOrder_of_refused (w := w) haccepted
    exact .inl ((hrun order).trans (hrun order').symm)

/-- Of two faults, each is reported in an order that begins with its indicator. -/
theorem length_faults_le_one (hbars : Bar.check bars = .ok ()) (hlong : r.checkHistory bars = .ok ())
    (hsame : ∀ order order' : Table α → List (Series α), IsOrder order → IsOrder order' →
      r.runInOrder order bars w = r.runInOrder order' bars w) :
    (Indicator.table r.indicators bars).faults.length ≤ 1 := by
  by_contra htwo
  obtain ⟨f, hf, g, hg, hne⟩ :=
    Indicator.Table.exists_two_faults (Indicator.nodup_table _ _) (Nat.lt_of_not_le htwo)
  obtain ⟨first, hfirst, herr⟩ := checkFinite_beginningWith hf
  obtain ⟨first', hfirst', herr'⟩ := checkFinite_beginningWith hg
  have heq := hsame _ _ (Indicator.isOrder_beginningWith f.indicator)
    (Indicator.isOrder_beginningWith g.indicator)
  rw [runInOrder_of_notFinite hbars hlong herr, runInOrder_of_notFinite hbars hlong herr',
    Except.error.injEq, Run.Fault.notFinite.injEq] at heq
  exact hne (hfirst.symm.trans ((congrArg NotFinite.indicator heq).trans hfirst'))

end

/-- **When the order of the checks matters.** Two orders give the same result, or each of them reports a
series that is not finite. All orders give the same result if and only if the history is refused or one
series at most is not finite. -/
theorem runInOrder_orders (r : Rule α) (bars : List (Bar α)) (w : Window) :
    (∀ order order' : Table α → List (Series α), IsOrder order → IsOrder order' →
      r.runInOrder order bars w = r.runInOrder order' bars w ∨
        ∃ fault ∈ (Indicator.table r.indicators bars).faults,
          ∃ fault' ∈ (Indicator.table r.indicators bars).faults,
            r.runInOrder order bars w = .error (.notFinite fault) ∧
              r.runInOrder order' bars w = .error (.notFinite fault')) ∧
    ((∀ order order' : Table α → List (Series α), IsOrder order → IsOrder order' →
      r.runInOrder order bars w = r.runInOrder order' bars w) ↔
        ¬ (Bar.check bars = .ok () ∧ r.checkHistory bars = .ok ()) ∨
          (Indicator.table r.indicators bars).faults.length ≤ 1) := by
  refine ⟨fun order order' ho ho' => runInOrder_eq_or_faults r bars w ho ho', ?_⟩
  by_cases haccepted : Bar.check bars = .ok () ∧ r.checkHistory bars = .ok ()
  · obtain ⟨hbars, hlong⟩ := haccepted
    refine ⟨fun hsame => .inr (length_faults_le_one hbars hlong hsame), fun hone order order' ho ho' => ?_⟩
    obtain ⟨result, hrun⟩ := runInOrder_of_accepted (w := w) hbars hlong
    rw [hrun, hrun, checkFinite_order_eq (hone.resolve_left (absurd ⟨hbars, hlong⟩)) ho ho']
  · obtain ⟨fault, hrun⟩ := runInOrder_of_refused (w := w) haccepted
    exact ⟨fun _ => .inl haccepted, fun _ order order' _ _ => (hrun order).trans (hrun order').symm⟩

/-- The rule that buys while the mean of two closes and the mean of three are both above the price. -/
def meansAbove : Rule Float :=
  ⟨"ACME", .long, [⟨.source (.indicator (.sma 2) .value), .greater, .source .price⟩,
    ⟨.source (.indicator (.sma 3) .value), .greater, .source .price⟩], .all⟩

/-- The sums of these prices are not finite. -/
def hugePrices : List (Bar Float) := Bar.flatHistory [1e308, 1e308, 1e308]

/-- In two orders the run is refused because of some series. -/
theorem runInOrder_orders_hugePrices :
    IsOrder (α := Float) id ∧ IsOrder (α := Float) List.reverse ∧
      (meansAbove.runInOrder id hugePrices .everything =
          meansAbove.runInOrder List.reverse hugePrices .everything ∨
        ∃ fault ∈ (Indicator.table meansAbove.indicators hugePrices).faults,
          ∃ fault' ∈ (Indicator.table meansAbove.indicators hugePrices).faults,
            meansAbove.runInOrder id hugePrices .everything = .error (.notFinite fault) ∧
              meansAbove.runInOrder List.reverse hugePrices .everything =
                .error (.notFinite fault')) :=
  ⟨Indicator.isOrder_id, Indicator.isOrder_reverse,
    (runInOrder_orders meansAbove hugePrices .everything).1 id List.reverse Indicator.isOrder_id
      Indicator.isOrder_reverse⟩

/-- The series that a run is refused for, if it is refused because a series is not finite. -/
def refusedFor? : Except (Run.Fault α) (Run α) → Option NotFinite
  | .error (.notFinite fault) => some fault
  | _ => none

omit [Scalar α] in
theorem refusedFor?_eq_some_iff {result : Except (Run.Fault α) (Run α)} {fault : NotFinite} :
    refusedFor? result = some fault ↔ result = .error (.notFinite fault) := by
  constructor
  · intro h
    match result, h with
    | .error (.notFinite f), h => rw [Option.some.inj h]
  · rintro rfl
    rfl

/-- A run is not determined by the rule, the bars and the window alone: here two orders of the checks give
two messages. -/
theorem runInOrder_twoFaults :
    ∃ fault fault' : NotFinite,
      IsOrder (α := Float) id ∧ IsOrder (α := Float) List.reverse ∧
      meansAbove.runInOrder id hugePrices .everything = .error (.notFinite fault) ∧
      meansAbove.runInOrder List.reverse hugePrices .everything = .error (.notFinite fault') ∧
      fault.message = "SMA(2) produced a non-finite value on 1970-01-02" ∧
      fault'.message = "SMA(3) produced a non-finite value on 1970-01-03" := by
  refine ⟨⟨.sma 2, ⟨1⟩⟩, ⟨.sma 3, ⟨2⟩⟩, Indicator.isOrder_id, Indicator.isOrder_reverse,
    refusedFor?_eq_some_iff.mp ?_, refusedFor?_eq_some_iff.mp ?_, ?_, ?_⟩
  · decide +kernel
  · decide +kernel
  · decide
  · decide

end Rule

end Backtest
