import Backtest.Proofs.CheckOrder
import Backtest.Proofs.Double
import Backtest.Proofs.Extension
import Backtest.Proofs.SoundRule
import Backtest.Failure

/-!
# The conditions of a rule as a set

Two rules with the same conditions, in whatever order and however often each, do the same over every history
(`Rule.runInOrder_conditions`). Order and repetition could show in four places, and do not:

* The indicators of a rule are listed without repetitions, in the order of first use. The table is asked by
  indicator (`Indicator.find?_table_congr`), and refused if any of its series is not finite
  (`Indicator.mem_faults_table`), so that only the set of indicators counts.
* A rule needs as many bars as the condition that needs most (`Rule.requiredBars_le_iff`).
* A signal fires where all conditions hold, or where any does (`Rule.signal_congr`).
* A failure may name another operand or another series, but it is of the same kind (`Run.Fault.SameKind`).

Conditions are the same if they compare as equal: the two zeros are one constant (`Condition.Same`).
-/

namespace Backtest

open Indicator (Table Series NotFinite IsOrder)
open Float.Model (pack UnpackedFloat)
open Float.Model.UnpackedFloat (Sign)

/-! ## Numbers that compare as equal -/

/-- Two doubles that are one, or compare as equal. -/
def SameNumber (x y : Float) : Prop := x = y ∨ x ≤ y ∧ y ≤ x

section

variable {x y x' y' : Float}

/-- What depends on the parts of a double, but not on the sign of a zero. -/
theorem SameNumber.congr (h : SameNumber x y) {β : Type} (f : UnpackedFloat → β)
    (hf : ∀ s t, f (.zero s) = f (.zero t)) : f x.toModel.unpack = f y.toModel.unpack := by
  rcases h with rfl | ⟨hle, hge⟩
  · rfl
  · rcases Decimal.unpack_eq_of_le_of_le hle hge with heq | ⟨s, t, hx, hy⟩
    · rw [heq]
    · rw [hx, hy]
      exact hf s t

theorem compare_zero (s t : Sign) (a : UnpackedFloat) :
    (UnpackedFloat.zero s).compare a = (UnpackedFloat.zero t).compare a := by
  cases a with
  | notANumber | zero => rfl
  | infinity u | finite u => cases u <;> rfl

theorem abs_sub_zero (s t : Sign) (a : UnpackedFloat) :
    (pack (pack (a.sub .binary64 (.zero s))).unpack.abs) =
      (pack (pack (a.sub .binary64 (.zero t))).unpack.abs) := by
  cases a with
  | notANumber | infinity | finite => rfl
  | zero u => cases u <;> cases s <;> cases t <;> rfl

theorem abs_zero_sub (s t : Sign) (a : UnpackedFloat) :
    (pack (pack ((UnpackedFloat.zero s).sub .binary64 a)).unpack.abs) =
      (pack (pack ((UnpackedFloat.zero t).sub .binary64 a)).unpack.abs) := by
  cases a with
  | notANumber | infinity | finite => rfl
  | zero u => cases u <;> cases s <;> cases t <;> rfl

theorem SameNumber.compare_eq (h : SameNumber x y) (h' : SameNumber x' y') :
    x.toModel.unpack.compare x'.toModel.unpack = y.toModel.unpack.compare y'.toModel.unpack := by
  calc x.toModel.unpack.compare x'.toModel.unpack
      = y.toModel.unpack.compare x'.toModel.unpack := h.congr (·.compare _) fun s t => compare_zero s t _
    _ = (x'.toModel.unpack.compare y.toModel.unpack).map Ordering.swap := Decimal.compare_swap _ _
    _ = (y'.toModel.unpack.compare y.toModel.unpack).map Ordering.swap := by
      rw [h'.congr (·.compare _) fun s t => compare_zero s t _]
    _ = y.toModel.unpack.compare y'.toModel.unpack := (Decimal.compare_swap _ _).symm

theorem SameNumber.lt_iff (h : SameNumber x y) (h' : SameNumber x' y') : x < x' ↔ y < y' := by
  rw [Decimal.lt_iff_unpack, Decimal.lt_iff_unpack, UnpackedFloat.lt, UnpackedFloat.lt, h.compare_eq h']

theorem SameNumber.le_iff (h : SameNumber x y) (h' : SameNumber x' y') : x ≤ x' ↔ y ≤ y' := by
  rw [Decimal.le_iff_unpack, Decimal.le_iff_unpack, UnpackedFloat.le, UnpackedFloat.le, h.compare_eq h']

/-- The distance of two numbers is not changed by the signs of zeros. -/
theorem SameNumber.abs_sub (h : SameNumber x y) (h' : SameNumber x' y') : (x - x').abs = (y - y').abs :=
  calc (x - x').abs
      = (y - x').abs := congrArg Float.ofModel
        (h.congr (fun a => pack (pack (a.sub .binary64 x'.toModel.unpack)).unpack.abs)
          fun s t => abs_zero_sub s t _)
    _ = (y - y').abs := congrArg Float.ofModel
        (h'.congr (fun a => pack (pack (y.toModel.unpack.sub .binary64 a)).unpack.abs)
          fun s t => abs_sub_zero s t _)

theorem Operator.compares_congr (o : Operator) (h : SameNumber x y) (h' : SameNumber x' y') :
    o.compares x x' = o.compares y y' := by
  cases o with
  | less | crossesBelow => exact decide_eq_decide.mpr (h.lt_iff h')
  | greater | crossesAbove => exact decide_eq_decide.mpr (h'.lt_iff h)
  | lessEqual => exact decide_eq_decide.mpr (h.le_iff h')
  | greaterEqual => exact decide_eq_decide.mpr (h'.le_iff h)
  | equal =>
    show decide ((x - x').abs < tolerance) = decide ((y - y').abs < tolerance)
    rw [h.abs_sub h']

theorem Operator.comparesBefore_congr (o : Operator) (h : SameNumber x y) (h' : SameNumber x' y') :
    o.comparesBefore x x' = o.comparesBefore y y' := by
  cases o with
  | crossesAbove => exact decide_eq_decide.mpr (h.le_iff h')
  | crossesBelow => exact decide_eq_decide.mpr (h'.le_iff h)
  | less | greater | lessEqual | greaterEqual | equal => rfl

end

/-! ## Conditions that are the same -/

/-- Operands that compare as equal. -/
inductive Operand.Same : Operand Float → Operand Float → Prop where
  | source (s : Source) : Same (.source s) (.source s)
  | constant {v w : Float} (number : SameNumber v w) : Same (.constant v) (.constant w)

/-- Conditions that compare as equal. -/
structure Condition.Same (c d : Condition Float) : Prop where
  left : c.left.Same d.left
  operator : c.operator = d.operator
  right : c.right.Same d.right

/-- Two lists that hold the same conditions, in any order and each any number of times. -/
structure SameConditions (cs ds : List (Condition Float)) : Prop where
  forward : ∀ c ∈ cs, ∃ d ∈ ds, c.Same d
  backward : ∀ d ∈ ds, ∃ c ∈ cs, c.Same d

theorem Operand.Same.indicator? {o o' : Operand Float} (h : o.Same o') : o.indicator? = o'.indicator? := by
  cases h <;> rfl

theorem Operand.Same.lookback {o o' : Operand Float} (h : o.Same o') : o.lookback = o'.lookback := by
  cases h <;> rfl

theorem Condition.Same.indicators {c d : Condition Float} (h : c.Same d) : c.indicators = d.indicators := by
  simp only [Condition.indicators, List.filterMap_cons, h.left.indicator?, h.right.indicator?]

theorem Condition.Same.requiredBars {c d : Condition Float} (h : c.Same d) :
    c.requiredBars = d.requiredBars := by
  rw [Condition.requiredBars, Condition.requiredBars, Condition.lookback, Condition.lookback,
    h.left.lookback, h.right.lookback, h.operator]

/-- A quantity that same conditions agree on has the same values on both lists. -/
theorem SameConditions.forall_iff {cs ds : List (Condition Float)} (h : SameConditions cs ds)
    {p q : Condition Float → Prop} (hpq : ∀ c d, c.Same d → (p c ↔ q d)) :
    (∀ c ∈ cs, p c) ↔ ∀ d ∈ ds, q d := by
  constructor
  · intro hall d hd
    obtain ⟨c, hc, hcd⟩ := h.backward d hd
    exact (hpq c d hcd).mp (hall c hc)
  · intro hall c hc
    obtain ⟨d, hd, hcd⟩ := h.forward c hc
    exact (hpq c d hcd).mpr (hall d hd)

theorem SameConditions.exists_iff {cs ds : List (Condition Float)} (h : SameConditions cs ds)
    {p q : Condition Float → Prop} (hpq : ∀ c d, c.Same d → (p c ↔ q d)) :
    (∃ c ∈ cs, p c) ↔ ∃ d ∈ ds, q d := by
  constructor
  · rintro ⟨c, hc, hp⟩
    obtain ⟨d, hd, hcd⟩ := h.forward c hc
    exact ⟨d, hd, (hpq c d hcd).mp hp⟩
  · rintro ⟨d, hd, hq⟩
    obtain ⟨c, hc, hcd⟩ := h.backward d hd
    exact ⟨c, hc, (hpq c d hcd).mpr hq⟩

theorem SameConditions.eq_nil_iff {cs ds : List (Condition Float)} (h : SameConditions cs ds) :
    cs = [] ↔ ds = [] := by
  rw [List.eq_nil_iff_forall_not_mem, List.eq_nil_iff_forall_not_mem]
  exact h.forall_iff (p := fun _ => False) (q := fun _ => False) fun _ _ _ => Iff.rfl

/-! ## The table of the indicators -/

namespace Indicator

theorem mem_distinct {is : List Indicator} {i : Indicator} : i ∈ distinct is ↔ i ∈ is := by
  have hfold : ∀ (is seen : List Indicator),
      i ∈ is.foldl (fun seen i => if seen.contains i then seen else seen ++ [i]) seen ↔
        i ∈ seen ∨ i ∈ is := by
    intro is
    induction is with
    | nil => simp
    | cons j is ih =>
      intro seen
      rw [List.foldl_cons, ih, List.mem_cons]
      split_ifs with hj
      · have hj' : j ∈ seen := by simpa using hj
        constructor
        · rintro (h | h)
          · exact .inl h
          · exact .inr (.inr h)
        · rintro (h | rfl | h)
          · exact .inl h
          · exact .inl hj'
          · exact .inr h
      · rw [List.mem_append, List.mem_singleton, or_assoc]
  rw [distinct, hfold]
  simp

/-- An indicator is found in a list without repetitions if it is in the list. -/
theorem find?_distinct (is : List Indicator) (i : Indicator) :
    (distinct is).find? (· = i) = if i ∈ is then some i else none := by
  split_ifs with hi
  · cases hfound : (distinct is).find? (· = i) with
    | none => exact absurd (by simp) (List.find?_eq_none.mp hfound i (mem_distinct.mpr hi))
    | some j =>
      have hj : j = i := by simpa using List.find?_some hfound
      rw [hj]
  · rw [List.find?_eq_none]
    rintro j hj heq
    exact hi (of_decide_eq_true heq ▸ mem_distinct.mp hj)

variable {α : Type} [Scalar α] {is js : List Indicator}

/-- Tables of the same indicators give the same series. -/
theorem find?_table_congr (h : ∀ i, i ∈ is ↔ i ∈ js) (bars : List (Bar α)) (i : Indicator) :
    (table is bars).find? i = (table js bars).find? i := by
  simp only [find?_table, find?_distinct, h]

theorem mem_faults_table {bars : List (Bar α)} {fault : NotFinite} :
    fault ∈ (table is bars).faults ↔ ∃ i ∈ is, (i.series bars).fault? = some fault := by
  simp only [Table.faults, table, List.filterMap_map, List.mem_filterMap, mem_distinct, Function.comp_apply]

end Indicator

/-! ## What a condition says at a bar -/

section

variable {table table' : Table Float} (htable : ∀ i, table.find? i = table'.find? i)
  (bars : List (Bar Float)) (index : Nat)

include htable in
theorem Operand.Same.valueAt {o o' : Operand Float} (h : o.Same o') :
    Option.Rel SameNumber (o.valueAt table bars index) (o'.valueAt table' bars index) := by
  cases h with
  | constant number => exact .some number
  | source s =>
    have heq : s.valueAt table bars index = s.valueAt table' bars index := by
      cases s with
      | price | volume => rfl
      | indicator i field => simp only [Source.valueAt, htable]
    show Option.Rel SameNumber (s.valueAt table bars index) (s.valueAt table' bars index)
    rw [heq]
    cases s.valueAt table' bars index with
    | none => exact .none
    | some v => exact .some (.inl rfl)

include htable in
theorem Condition.Same.testAt {c d : Condition Float} (h : c.Same d) {test : Float → Float → Bool}
    (htest : ∀ {x y x' y' : Float}, SameNumber x y → SameNumber x' y' → test x x' = test y y') :
    c.testAt table bars index test = d.testAt table' bars index test := by
  have hleft := h.left.valueAt htable bars index
  have hright := h.right.valueAt htable bars index
  rw [Condition.testAt, Condition.testAt]
  generalize c.left.valueAt table bars index = l at *
  generalize c.right.valueAt table bars index = r at *
  generalize d.left.valueAt table' bars index = l' at *
  generalize d.right.valueAt table' bars index = r' at *
  cases hleft with
  | none => rfl
  | some hl =>
    cases hright with
    | none => rfl
    | some hr => exact htest hl hr

include htable in
theorem Condition.Same.holdsAt {c d : Condition Float} (h : c.Same d) :
    c.holdsAt table bars index = d.holdsAt table' bars index := by
  have hnow := h.testAt htable bars index c.operator.compares_congr
  have hbefore : ∀ before, c.testAt table bars before c.operator.comparesBefore =
      d.testAt table' bars before c.operator.comparesBefore :=
    fun before => h.testAt htable bars before c.operator.comparesBefore_congr
  cases index with
  | zero => simp only [Condition.holdsAt, ← h.operator, hnow]
  | succ before => simp only [Condition.holdsAt, ← h.operator, hnow, hbefore]

end

/-! ## Rules with the same conditions -/

namespace Rule

section

variable {r r' : Rule Float}

theorem mem_indicators {i : Indicator} : i ∈ r.indicators ↔ ∃ c ∈ r.conditions, i ∈ c.indicators := by
  rw [indicators, Indicator.mem_distinct, List.mem_flatMap]

/-- A fold whose steps never lose in height ends as high as all that it has met. -/
theorem foldl_highest {β : Type} {step : Option β → β → Option β} {height : β → Nat}
    (hstep : ∀ best x, ∃ b, step best x = some b ∧ height x ≤ height b ∧
      ∀ a, best = some a → height a ≤ height b) {x : β} :
    ∀ (xs : List β) (best : Option β), (x ∈ xs ∨ ∃ b, best = some b ∧ height x ≤ height b) →
      ∃ b, xs.foldl step best = some b ∧ height x ≤ height b := by
  intro xs
  induction xs with
  | nil => exact fun best h => h.resolve_left List.not_mem_nil
  | cons y xs ih =>
    intro best h
    rw [List.foldl_cons]
    obtain ⟨b, hb, hy, hbest⟩ := hstep best y
    refine ih _ ?_
    rw [List.mem_cons, or_assoc] at h
    rcases h with rfl | hmem | ⟨a, ha, hx⟩
    · exact .inr ⟨b, hb, hy⟩
    · exact .inl hmem
    · exact .inr ⟨b, hb, hx.trans (hbest a ha)⟩

/-- The limiting condition needs as many bars as any. -/
theorem limitingCondition?_le {c : Condition Float} (hc : c ∈ r.conditions) :
    ∃ b, r.limitingCondition? = some b ∧ c.lookback ≤ b.lookback := by
  apply foldl_highest _ _ _ (.inl hc)
  intro best d
  cases best with
  | none => exact ⟨d, rfl, le_rfl, fun a ha => nomatch ha⟩
  | some b =>
    by_cases hlt : d.lookback < b.lookback
    · exact ⟨b, if_pos hlt, hlt.le, fun a ha => by rw [Option.some.inj ha]⟩
    · exact ⟨d, if_neg hlt, le_rfl, fun a ha => Option.some.inj ha ▸ not_lt.mp hlt⟩

/-- A number of bars is enough for a rule if it is enough for each of the conditions. -/
theorem requiredBars_le_iff {n : Nat} :
    r.requiredBars ≤ n ↔ 1 ≤ n ∧ ∀ c ∈ r.conditions, c.requiredBars ≤ n := by
  constructor
  · intro h
    rw [requiredBars] at h
    refine ⟨?_, fun c hc => ?_⟩
    · split at h
      · exact (Nat.le_add_left 1 _).trans h
      · exact h
    · obtain ⟨b, hb, hle⟩ := limitingCondition?_le hc
      rw [hb] at h
      exact (Nat.succ_le_succ hle).trans h
  · rintro ⟨hone, hall⟩
    rw [requiredBars]
    split
    · rename_i c hc
      exact hall c (limitingCondition?_mem hc)
    · exact hone

variable (h : SameConditions r.conditions r'.conditions)

include h in
theorem mem_indicators_congr (i : Indicator) : i ∈ r.indicators ↔ i ∈ r'.indicators := by
  rw [mem_indicators, mem_indicators]
  exact h.exists_iff fun c d hcd => by rw [hcd.indicators]

include h in
theorem requiredBars_congr : r.requiredBars = r'.requiredBars := by
  have hiff : ∀ n, r.requiredBars ≤ n ↔ r'.requiredBars ≤ n := fun n => by
    rw [requiredBars_le_iff, requiredBars_le_iff,
      h.forall_iff fun c d hcd => by rw [hcd.requiredBars]]
  exact le_antisymm ((hiff _).mpr le_rfl) ((hiff _).mp le_rfl)

include h in
/-- The signals agree at every bar. -/
theorem signal_congr (hcombination : r.combination = r'.combination) (bars : List (Bar Float)) :
    r.signal (Indicator.table r.indicators bars) bars =
      r'.signal (Indicator.table r'.indicators bars) bars := by
  have hholds : ∀ (index : Nat) (c d : Condition Float), c.Same d →
      c.holdsAt (Indicator.table r.indicators bars) bars index =
        d.holdsAt (Indicator.table r'.indicators bars) bars index := fun index c d hcd =>
    hcd.holdsAt (Indicator.find?_table_congr (mem_indicators_congr h) bars) bars index
  by_cases hnil : r.conditions = []
  · rw [signal, signal, hnil, h.eq_nil_iff.mp hnil, hcombination]
    rfl
  · rw [r.signal_eq hnil, r'.signal_eq (h.eq_nil_iff.not.mp hnil), hcombination]
    refine List.map_congr_left fun index _ => ?_
    rw [Bool.eq_iff_iff]
    cases r'.combination with
    | all =>
      simp only [Combination.combine, List.all_map, List.all_eq_true, Function.comp_apply, id]
      exact h.forall_iff fun c d hcd => by rw [hholds index c d hcd]
    | any =>
      simp only [Combination.combine, List.any_map, List.any_eq_true, Function.comp_apply, id]
      exact h.exists_iff fun c d hcd => by rw [hholds index c d hcd]

include h in
/-- If the series of one rule are finite, those of the other one are. -/
theorem faults_congr (bars : List (Bar Float)) :
    (Indicator.table r.indicators bars).faults = [] ↔ (Indicator.table r'.indicators bars).faults = [] := by
  simp only [List.eq_nil_iff_forall_not_mem, Indicator.mem_faults_table, mem_indicators_congr h]

end

end Rule

/-! ## Runs -/

/-- Why two runs are refused, up to the operand or the series that is named. -/
inductive Run.Fault.SameKind : Run.Fault Float → Run.Fault Float → Prop where
  | badHistory (fault : Bar.Fault) : SameKind (.badHistory fault) (.badHistory fault)
  | shortHistory (limiting limiting' : Option (Operand Float)) (required bars : Nat) :
    SameKind (.shortHistory limiting required bars) (.shortHistory limiting' required bars)
  | notFinite (fault fault' : NotFinite) : SameKind (.notFinite fault) (.notFinite fault')
  | emptyWindow (window : Window) : SameKind (.emptyWindow window) (.emptyWindow window)
  | badReturn (trade : BadReturn Float) : SameKind (.badReturn trade) (.badReturn trade)

/-- Two runs that succeed with the same window, signal and trades, or are refused for the same kind of
reason. -/
inductive Run.Agree : Except (Run.Fault Float) (Run Float) → Except (Run.Fault Float) (Run Float) → Prop where
  | ok (run : Run Float) : Agree (.ok run) (.ok run)
  | error {fault fault' : Run.Fault Float} (kind : fault.SameKind fault') : Agree (.error fault) (.error fault')

namespace Run

theorem Fault.SameKind.refl (fault : Fault Float) : fault.SameKind fault := by
  cases fault with
  | badHistory fault => exact .badHistory fault
  | shortHistory limiting required bars => exact .shortHistory limiting limiting required bars
  | notFinite fault => exact .notFinite fault fault
  | emptyWindow window => exact .emptyWindow window
  | badReturn trade => exact .badReturn trade

theorem Agree.refl (result : Except (Fault Float) (Run Float)) : Agree result result := by
  cases result with
  | ok run => exact .ok run
  | error fault => exact .error (.refl fault)

/-- Faults of one kind end a command with the same code, and an answer with the same status. -/
theorem Fault.SameKind.failure {fault fault' : Fault Float} (h : fault.SameKind fault') (ticker : String) :
    (Failure.ofRunFault ticker fault).exitCode = (Failure.ofRunFault ticker fault').exitCode ∧
      (Failure.ofRunFault ticker fault).status = (Failure.ofRunFault ticker fault').status := by
  cases h <;> exact ⟨rfl, rfl⟩

end Run

section

variable {order order' : Table Float → List (Series Float)} (ho : IsOrder order) (ho' : IsOrder order')
  {r r' : Rule Float} (h : SameConditions r.conditions r'.conditions)

include h in
theorem Rule.checkHistory_congr (bars : List (Bar Float)) :
    (r.checkHistory bars = .ok () ∧ r'.checkHistory bars = .ok ()) ∨
      ∃ fault fault' : Run.Fault Float, fault.SameKind fault' ∧ r.checkHistory bars = .error fault ∧
        r'.checkHistory bars = .error fault' := by
  rw [checkHistory, checkHistory, requiredBars_congr h]
  split_ifs
  · exact .inl ⟨rfl, rfl⟩
  · exact .inr ⟨_, _, .shortHistory _ _ _ _, rfl, rfl⟩

include ho ho' h in
theorem Rule.checkFinite_congr (bars : List (Bar Float)) :
    (checkFinite (order (Indicator.table r.indicators bars)) = .ok () ∧
        checkFinite (order' (Indicator.table r'.indicators bars)) = .ok ()) ∨
      ∃ fault fault' : Run.Fault Float, fault.SameKind fault' ∧
        checkFinite (order (Indicator.table r.indicators bars)) = .error fault ∧
        checkFinite (order' (Indicator.table r'.indicators bars)) = .error fault' := by
  rcases checkFinite_order ho (Indicator.table r.indicators bars) with ⟨hnone, hok⟩ | ⟨f, hf, herr⟩
  · rcases checkFinite_order ho' (Indicator.table r'.indicators bars) with ⟨-, hok'⟩ | ⟨f', hf', -⟩
    · exact .inl ⟨hok, hok'⟩
    · rw [(faults_congr h bars).mp hnone] at hf'
      cases hf'
  · rcases checkFinite_order ho' (Indicator.table r'.indicators bars) with ⟨hnone', -⟩ | ⟨f', -, herr'⟩
    · rw [(faults_congr h bars).mpr hnone'] at hf
      cases hf
    · exact .inr ⟨_, _, .notFinite f f', herr, herr'⟩

include ho ho' h in
/-- **The conditions of a rule are a set.** Two rules with the same ticker, direction and combination, whose
lists hold the same conditions in any order and any number of times, are run over every history and in every
window to the same end: both runs succeed, with the same bars of the window, the same signal and the same
trades, or both are refused for the same kind of reason, with the same exit code and status. The series are
checked in an order of its own in each run. -/
theorem Rule.runInOrder_conditions (hticker : r.ticker = r'.ticker) (hdirection : r.direction = r'.direction)
    (hcombination : r.combination = r'.combination) (bars : List (Bar Float)) (w : Window) :
    Run.Agree (r.runInOrder order bars w) (r'.runInOrder order' bars w) ∧
      ∀ fault fault', r.runInOrder order bars w = .error fault → r'.runInOrder order' bars w = .error fault' →
        (Failure.ofRunFault r.ticker fault).exitCode = (Failure.ofRunFault r'.ticker fault').exitCode ∧
          (Failure.ofRunFault r.ticker fault).status = (Failure.ofRunFault r'.ticker fault').status := by
  have hagree : Run.Agree (r.runInOrder order bars w) (r'.runInOrder order' bars w) := by
    cases hbars : Bar.check bars with
    | error fault =>
      simp only [runInOrder, hbars]
      exact .refl _
    | ok _ =>
      rcases checkHistory_congr h bars with ⟨hlong, hlong'⟩ | ⟨f, f', hkind, hshort, hshort'⟩
      · rcases checkFinite_congr ho ho' h bars with ⟨hok, hok'⟩ | ⟨f, f', hkind, herr, herr'⟩
        · have hsame : r.runInOrder order bars w = r'.runInOrder order' bars w := by
            simp only [runInOrder, hbars, hlong, hlong', hok, hok', signal_congr h hcombination bars,
              hdirection, hticker]
          rw [hsame]
          exact .refl _
        · simp only [runInOrder, hbars, hlong, hlong', herr, herr']
          exact .error hkind
      · simp only [runInOrder, hbars, hshort, hshort']
        exact .error hkind
  refine ⟨hagree, fun fault fault' hrun hrun' => ?_⟩
  rw [hrun, hrun'] at hagree
  cases hagree with
  | error hkind =>
    rw [← hticker]
    exact hkind.failure r.ticker

end

/-- The rule that buys while the price stands above the mean of two closes. -/
def Rule.buysStrength (conditions : List (Condition Float)) : Rule Float :=
  ⟨"ACME", .long, conditions, .all⟩

/-- The price is above the mean. -/
def Condition.aboveMean : Condition Float :=
  ⟨.source .price, .greater, .source (.indicator (.sma 2) .value)⟩

/-- The price is above a number. -/
def Condition.priceAbove (v : Float) : Condition Float := ⟨.source .price, .greater, .constant v⟩

/-- One condition comes first in one rule, and last in the other one, where it also stands twice and with the
other zero. Both rules make the same trade. -/
theorem Rule.runInOrder_conditions_flatHistory :
    IsOrder (α := Float) id ∧ IsOrder (α := Float) List.reverse ∧
      SameConditions [.priceAbove 0, .aboveMean] [.aboveMean, .priceAbove (-0), .priceAbove (-0)] ∧
      (∃ run : Run Float, (buysStrength [.priceAbove 0, .aboveMean]).runInOrder id
          (Bar.flatHistory [4, 3, 5, 6, 2]) .everything = .ok run ∧
        run.trades.map (·.exitDate) = [⟨4⟩]) ∧
      Run.Agree
        ((buysStrength [.priceAbove 0, .aboveMean]).runInOrder id
          (Bar.flatHistory [4, 3, 5, 6, 2]) .everything)
        ((buysStrength [.aboveMean, .priceAbove (-0), .priceAbove (-0)]).runInOrder List.reverse
          (Bar.flatHistory [4, 3, 5, 6, 2]) .everything) := by
  have hzero : SameNumber 0 (-0) := .inr ⟨by decide, by decide⟩
  have hprice : (Condition.priceAbove 0).Same (.priceAbove (-0)) := ⟨.source _, rfl, .constant hzero⟩
  have hmean : Condition.aboveMean.Same .aboveMean := ⟨.source _, rfl, .source _⟩
  have hsame : SameConditions (buysStrength [.priceAbove 0, .aboveMean]).conditions
      (buysStrength [.aboveMean, .priceAbove (-0), .priceAbove (-0)]).conditions := by
    constructor
    · intro c hc
      simp only [buysStrength, List.mem_cons, List.not_mem_nil, or_false] at hc
      rcases hc with rfl | rfl
      · exact ⟨_, .tail _ (.head _), hprice⟩
      · exact ⟨_, .head _, hmean⟩
    · intro d hd
      simp only [buysStrength, List.mem_cons, List.not_mem_nil, or_false, or_self] at hd
      rcases hd with rfl | rfl
      · exact ⟨_, .tail _ (.head _), hmean⟩
      · exact ⟨_, .head _, hprice⟩
  exact ⟨Indicator.isOrder_id, Indicator.isOrder_reverse, hsame, ⟨_, rfl, rfl⟩,
    (runInOrder_conditions Indicator.isOrder_id Indicator.isOrder_reverse hsame rfl rfl rfl _ _).1⟩

end Backtest
