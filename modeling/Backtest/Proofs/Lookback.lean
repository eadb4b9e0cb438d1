import Backtest.Failure
import Backtest.Proofs.ConditionSets
import Backtest.Proofs.Warmup

/-!
# The lookback is exact

How many bars a rule must look back is added up from its parameters alone, in three layers: of an indicator, of
a side, of a condition. Here it is compared with what the series hold. A sound source has a value at exactly the
bars from its lookback on (`Source.isSome_valueAt`), because its indicator begins there (`beginsAt_readings`) and
each reading has the field that is asked for (`Reading.isSome_field?`). So all that a condition reads at a bar is there
exactly from its own lookback on (`Condition.IsSound.isDecidedAt_iff`); a crossing reads the bar before as well, and
counts one bar more.

`Rule.decided_from_lookback` draws the consequences: a condition is false before its lookback and the plain
comparison from there on, a history is long enough exactly when every condition is decided at one bar at least, and
a history that is not is told how many bars it needs, and the operand that needs them.
-/

namespace Backtest

/-! ## What a condition reads -/

namespace Condition

section

variable {α : Type} [Scalar α] (c : Condition α) (table : Indicator.Table α) (bars : List (Bar α))

/-- Both sides have a value at a bar. -/
def HasSidesAt (index : Nat) : Prop :=
  (c.left.valueAt table bars index).isSome = true ∧ (c.right.valueAt table bars index).isSome = true

/-- All that a condition reads at a bar is there: both sides, and for a crossing both sides at the bar before. -/
def IsDecidedAt (index : Nat) : Prop :=
  c.HasSidesAt table bars index ∧
    (c.operator.isCrossing = true → ∃ before, index = before + 1 ∧ c.HasSidesAt table bars before)

/-- The plain comparison at a bar: of the numbers there, and for a crossing also of those at the bar before. -/
inductive Compares : Nat → Bool → Prop where
  | plain {index : Nat} {l r : α} (operator : c.operator.isCrossing = false)
    (left : c.left.valueAt table bars index = some l) (right : c.right.valueAt table bars index = some r) :
    Compares index (c.operator.compares l r)
  | crossing {before : Nat} {l r l' r' : α} (operator : c.operator.isCrossing = true)
    (left : c.left.valueAt table bars (before + 1) = some l)
    (right : c.right.valueAt table bars (before + 1) = some r)
    (leftBefore : c.left.valueAt table bars before = some l')
    (rightBefore : c.right.valueAt table bars before = some r') :
    Compares (before + 1) (c.operator.comparesBefore l' r' && c.operator.compares l r)

variable {c table bars} {index : Nat}

omit [Scalar α] in
/-- Where a side is missing, no test is passed. -/
theorem testAt_of_not_hasSidesAt (h : ¬ c.HasSidesAt table bars index) (test : α → α → Bool) :
    c.testAt table bars index test = false := by
  unfold HasSidesAt at h
  unfold testAt
  cases hl : c.left.valueAt table bars index with
  | none => rfl
  | some l =>
    cases hr : c.right.valueAt table bars index with
    | none => rfl
    | some r => simp [hl, hr] at h

/-- A condition that is not decided does not hold. -/
theorem holdsAt_of_not_isDecidedAt (h : ¬ c.IsDecidedAt table bars index) : c.holdsAt table bars index = false := by
  unfold holdsAt
  by_cases hnow : c.HasSidesAt table bars index
  · have hcrossing : c.operator.isCrossing = true := by
      by_contra hplain
      exact h ⟨hnow, fun hc => absurd hc hplain⟩
    cases index with
    | zero => simp [hcrossing]
    | succ before =>
      have hbefore : ¬ c.HasSidesAt table bars before := fun hsides => h ⟨hnow, fun _ => ⟨before, rfl, hsides⟩⟩
      simp [hcrossing, testAt_of_not_hasSidesAt hbefore]
  · simp [testAt_of_not_hasSidesAt hnow]

/-- A condition that is decided says what the plain comparison says. -/
theorem IsDecidedAt.compares (h : c.IsDecidedAt table bars index) :
    c.Compares table bars index (c.holdsAt table bars index) := by
  obtain ⟨⟨hl, hr⟩, hbefore⟩ := h
  obtain ⟨l, hl⟩ := Option.isSome_iff_exists.mp hl
  obtain ⟨r, hr⟩ := Option.isSome_iff_exists.mp hr
  by_cases hcrossing : c.operator.isCrossing = true
  · obtain ⟨before, rfl, hl', hr'⟩ := hbefore hcrossing
    obtain ⟨l', hl'⟩ := Option.isSome_iff_exists.mp hl'
    obtain ⟨r', hr'⟩ := Option.isSome_iff_exists.mp hr'
    have hholds : c.holdsAt table bars (before + 1) =
        (c.operator.comparesBefore l' r' && c.operator.compares l r) := by
      simp [holdsAt, testAt, hl, hr, hl', hr', hcrossing, Bool.and_comm]
    rw [hholds]
    exact .crossing hcrossing hl hr hl' hr'
  · have hholds : c.holdsAt table bars index = c.operator.compares l r := by
      unfold holdsAt
      simp [testAt, hl, hr, hcrossing]
    rw [hholds]
    exact .plain (by simpa using hcrossing) hl hr

end

end Condition

/-! ## Where a source has values -/

namespace Indicator

theorem HasSoundParameters.isRegular {i : Indicator} (h : i.HasSoundParameters) : i.IsRegular := by
  constructor
  · intro hzero
    have hperiod := (Candidate.hasSoundParameters_iff.mp h).1 0 hzero
    unfold IsPeriod at hperiod
    omega
  · rintro fast slow signal rfl
    obtain ⟨hfast, hslow, hsignal, hlt⟩ := h
    unfold IsPeriod at hslow hsignal
    omega

/-- A reading has every field of its indicator. -/
theorem Reading.isSome_field? {α : Type} {i : Indicator} {reading : Reading α} {field : Field}
    (hshape : i.hasShape reading = true) (hfield : i.hasField field = true) :
    (reading.field? field).isSome = true := by
  cases i <;> cases reading <;> cases field <;> simp_all [hasShape, hasField, Reading.field?]

/-- The series of an indicator that a table was made for. -/
theorem find?_table_of_mem {α : Type} [Scalar α] {is : List Indicator} {i : Indicator} (hi : i ∈ is)
    (bars : List (Bar α)) : (table is bars).find? i = some (i.series bars) := by
  rw [find?_table, find?_distinct, if_pos hi, Option.map_some]

end Indicator

section

variable {is : List Indicator} {bars : List (Bar Float)} {index : Nat} (hlt : index < bars.length)

include hlt

/-- A sound source has a value at exactly the bars from its lookback on. -/
theorem Source.isSome_valueAt {s : Source} (hs : s.IsSound) (hi : ∀ i, s.indicator? = some i → i ∈ is) :
    (s.valueAt (Indicator.table is bars) bars index).isSome = true ↔ s.lookback ≤ index := by
  cases s with
  | price => simp [valueAt, lookback, indicator?, hlt]
  | volume => simp [valueAt, lookback, indicator?, hlt]
  | indicator i field =>
    obtain ⟨hfield, hparameters⟩ := hs
    have hregular := hparameters.isRegular
    obtain ⟨reading, hreading⟩ : ∃ reading, (i.readings bars)[index]? = some reading :=
      ⟨_, List.getElem?_eq_getElem (by rwa [(Indicator.causal_readings i).length_eq])⟩
    have hbegins := Indicator.beginsAt_readings hregular.nonzero bars index reading hreading
    have hpoint : (i.series bars).points[index]? = some ⟨bars[index].date, reading⟩ :=
      Indicator.getElem?_points.mpr ⟨_, _, List.getElem?_eq_getElem hlt, hreading, rfl⟩
    have hvalue : (Source.indicator i field).valueAt (Indicator.table is bars) bars index =
        reading.bind (·.field? field) := by
      simp [valueAt, Indicator.find?_table_of_mem (hi i rfl), hpoint]
    have hlookback : (Source.indicator i field).lookback = i.warmup := hregular.lookback_eq_warmup
    rw [hvalue, hlookback, ← hbegins]
    cases hr : reading with
    | none => simp
    | some rd =>
      rw [hr] at hreading
      have hshape := Indicator.hasShape_of_mem_readings (List.mem_of_getElem? hreading)
      simp [Indicator.Reading.isSome_field? hshape hfield]

namespace Condition.IsSound

variable {c : Condition Float} (hc : c.IsSound) (hi : ∀ i ∈ c.indicators, i ∈ is)

include hc hi

theorem hasSidesAt_iff : c.HasSidesAt (Indicator.table is bars) bars index ↔
    max c.left.lookback c.right.lookback ≤ index := by
  cases hc with
  | @sources left right operator hleft hright _ =>
    have hl := Source.isSome_valueAt hlt hleft fun i h => hi i (by simp [indicators, Operand.indicator?, h])
    have hr := Source.isSome_valueAt hlt hright fun i h => hi i (by simp [indicators, Operand.indicator?, h])
    simp only [HasSidesAt, Operand.valueAt, Operand.lookback, hl, hr]
    omega
  | @constant left v operator hleft _ =>
    have hl := Source.isSome_valueAt hlt hleft fun i h => hi i (by simp [indicators, Operand.indicator?, h])
    simp [HasSidesAt, Operand.valueAt, Operand.lookback, hl]

/-- All that a condition reads is there from its lookback on, and not before. -/
theorem isDecidedAt_iff : c.IsDecidedAt (Indicator.table is bars) bars index ↔ c.lookback ≤ index := by
  unfold IsDecidedAt lookback
  rw [hasSidesAt_iff hlt hc hi]
  by_cases hcrossing : c.operator.isCrossing = true
  · rw [if_pos hcrossing]
    constructor
    · rintro ⟨-, hbefore⟩
      obtain ⟨before, rfl, hsides⟩ := hbefore hcrossing
      rw [hasSidesAt_iff (Nat.lt_of_succ_lt hlt) hc hi] at hsides
      omega
    · intro hle
      obtain ⟨before, rfl⟩ : ∃ before, index = before + 1 := ⟨index - 1, by omega⟩
      refine ⟨by omega, fun _ => ⟨before, rfl, ?_⟩⟩
      rw [hasSidesAt_iff (Nat.lt_of_succ_lt hlt) hc hi]
      omega
  · simp [hcrossing]

end Condition.IsSound

end

/-! ## How many bars are enough -/

/-- The limiting operand is a side of the condition, and no side begins later. -/
theorem Condition.limitingOperand_spec {α : Type} (c : Condition α) :
    c.limitingOperand ∈ [c.left, c.right] ∧ ∀ o ∈ [c.left, c.right], o.lookback ≤ c.limitingOperand.lookback := by
  unfold limitingOperand
  by_cases h : c.left.lookback < c.right.lookback
  · rw [if_pos h]
    simp [h.le]
  · rw [if_neg h]
    simp [not_lt.mp h]

namespace Rule

variable {r : Rule Float}

theorem checkHistory_eq_ok_iff (bars : List (Bar Float)) :
    r.checkHistory bars = .ok () ↔ r.requiredBars ≤ bars.length := by
  unfold checkHistory
  by_cases h : r.requiredBars ≤ bars.length <;> simp [h]

/-- Enough bars for a rule are enough for each of its conditions. -/
theorem requiredBars_le_iff_lookback (hr : r.conditions ≠ []) {n : Nat} :
    r.requiredBars ≤ n ↔ ∀ c ∈ r.conditions, c.lookback < n := by
  obtain ⟨c, cs, hcs⟩ := List.exists_cons_of_ne_nil hr
  rw [requiredBars_le_iff]
  constructor
  · rintro ⟨-, hall⟩ d hd
    exact hall d hd
  · intro hall
    have hc := hall c (by simp [hcs])
    exact ⟨by omega, hall⟩

/-- A condition that no other one outlasts, by which the required bars are counted. -/
theorem exists_limitingCondition (hr : r.conditions ≠ []) :
    ∃ c ∈ r.conditions, r.limitingCondition? = some c ∧ (∀ d ∈ r.conditions, d.lookback ≤ c.lookback) ∧
      r.requiredBars = c.lookback + 1 := by
  obtain ⟨d, ds, hds⟩ := List.exists_cons_of_ne_nil hr
  obtain ⟨c, hc, -⟩ := limitingCondition?_le (r := r) (c := d) (by simp [hds])
  refine ⟨c, limitingCondition?_mem hc, hc, fun e he => ?_, ?_⟩
  · obtain ⟨c', hc', hle⟩ := limitingCondition?_le he
    rw [hc, Option.some.injEq] at hc'
    rwa [hc']
  · rw [requiredBars, hc]
    rfl

/-- A history that is too short is told by the limiting operand, the required bars and the bars there are. -/
theorem checkHistory_eq_error (hr : r.conditions ≠ []) {bars : List (Bar Float)} {fault : Run.Fault Float}
    (h : r.checkHistory bars = .error fault) :
    ∃ c ∈ r.conditions, r.limitingCondition? = some c ∧ (∀ d ∈ r.conditions, d.lookback ≤ c.lookback) ∧
      fault = .shortHistory (some c.limitingOperand) r.requiredBars bars.length := by
  obtain ⟨c, hmem, hc, hlongest, -⟩ := exists_limitingCondition hr
  refine ⟨c, hmem, hc, hlongest, ?_⟩
  unfold checkHistory at h
  split_ifs at h
  rw [hc] at h
  exact (Except.error.inj h).symm

/-- **The lookback is exact.** In a run of a sound rule, all that a condition reads at a bar is there exactly if as
many bars stand in front of it as the lookback counts. Before that the condition is false, and from there on it is
the plain comparison. So a history passes exactly when each condition is decided at some bar of it. One that does not
pass is told the number of bars from which on histories pass, and an operand of the limiting condition, none of whose
sides looks further back. -/
theorem decided_from_lookback (hr : r.IsSound) (bars : List (Bar Float)) :
    (∀ c ∈ r.conditions, ∀ index < bars.length,
      (c.IsDecidedAt (Indicator.table r.indicators bars) bars index ↔ c.lookback ≤ index) ∧
        (index < c.lookback → c.holdsAt (Indicator.table r.indicators bars) bars index = false) ∧
        (c.lookback ≤ index → c.Compares (Indicator.table r.indicators bars) bars index
          (c.holdsAt (Indicator.table r.indicators bars) bars index))) ∧
      (r.checkHistory bars = .ok () ↔
        ∀ c ∈ r.conditions, ∃ index < bars.length, c.IsDecidedAt (Indicator.table r.indicators bars) bars index) ∧
      ∀ fault, r.checkHistory bars = .error fault →
        ∃ c operand required, c ∈ r.conditions ∧ r.limitingCondition? = some c ∧
          (∀ d ∈ r.conditions, d.lookback ≤ c.lookback) ∧ operand ∈ [c.left, c.right] ∧
          (∀ o ∈ [c.left, c.right], o.lookback ≤ operand.lookback) ∧
          (∀ history, r.checkHistory history = .ok () ↔ required ≤ history.length) ∧
          Failure.ofRunFault r.ticker fault =
            .insufficientHistory r.ticker operand.text required bars.length := by
  have hdecided : ∀ c ∈ r.conditions, ∀ index < bars.length,
      (c.IsDecidedAt (Indicator.table r.indicators bars) bars index ↔ c.lookback ≤ index) :=
    fun c hc index hlt => (hr.conditions c hc).isDecidedAt_iff hlt fun i hi => mem_indicators.mpr ⟨c, hc, hi⟩
  refine ⟨fun c hc index hlt => ⟨hdecided c hc index hlt, fun hbefore => ?_, fun hle => ?_⟩, ?_, fun fault h => ?_⟩
  · apply Condition.holdsAt_of_not_isDecidedAt
    rw [hdecided c hc index hlt]
    omega
  · exact ((hdecided c hc index hlt).mpr hle).compares
  · rw [checkHistory_eq_ok_iff, requiredBars_le_iff_lookback hr.nonempty]
    constructor
    · intro hall c hc
      exact ⟨c.lookback, hall c hc, (hdecided c hc _ (hall c hc)).mpr le_rfl⟩
    · intro hall c hc
      obtain ⟨index, hlt, hindex⟩ := hall c hc
      have hle := (hdecided c hc index hlt).mp hindex
      omega
  · obtain ⟨c, hc, hlimiting, hlongest, rfl⟩ := checkHistory_eq_error hr.nonempty h
    obtain ⟨hside, hlast⟩ := c.limitingOperand_spec
    exact ⟨c, c.limitingOperand, r.requiredBars, hc, hlimiting, hlongest, hside, hlast,
      fun history => checkHistory_eq_ok_iff history, rfl⟩

/-- Buying when the mean of two closes overtakes that of three. -/
def overtakesMean : Rule Float where
  ticker := "ACME"
  direction := .long
  conditions := [⟨.source (.indicator (.sma 2) .value), .crossesAbove, .source (.indicator (.ema 3) .value)⟩,
    ⟨.source .volume, .greater, .constant 0⟩]
  combination := .all

/-- The slower mean is there from the third bar on, the crossing is decided from the fourth bar on, and three bars are
too few. Where the faster mean is below the slower one and then above it, at the fifth bar, it overtakes it. -/
theorem decided_from_lookback_overtakesMean :
    overtakesMean.IsSound ∧
      (∀ c ∈ overtakesMean.conditions, c.operator.isCrossing = true → ∀ index < 5,
        (c.IsDecidedAt (Indicator.table overtakesMean.indicators (Bar.flatHistory [1, 2, 4, 3, 5]))
          (Bar.flatHistory [1, 2, 4, 3, 5]) index ↔ 3 ≤ index)) ∧
      (∃ c ∈ overtakesMean.conditions, c.operator.isCrossing = true ∧
        c.Compares (Indicator.table overtakesMean.indicators (Bar.flatHistory [4, 2, 1, 3, 5]))
          (Bar.flatHistory [4, 2, 1, 3, 5]) 3 false ∧
        c.Compares (Indicator.table overtakesMean.indicators (Bar.flatHistory [4, 2, 1, 3, 5]))
          (Bar.flatHistory [4, 2, 1, 3, 5]) 4 true) ∧
      ∃ fault, overtakesMean.checkHistory (Bar.flatHistory [1, 2, 4]) = .error fault ∧
        ∃ operand required, (∀ history, overtakesMean.checkHistory history = .ok () ↔ required ≤ history.length) ∧
          Failure.ofRunFault "ACME" fault = .insufficientHistory "ACME" (Operand.text operand) required 3 := by
  have hsound : overtakesMean.IsSound := by
    refine ⟨⟨by decide, by decide, List.all_eq_true.mp rfl⟩, by simp [overtakesMean], ?_⟩
    simp only [overtakesMean, List.mem_cons, List.not_mem_nil, or_false]
    rintro c (rfl | rfl)
    · exact .sources _ (by decide) (by decide) (by decide)
    · exact .constant _ (by decide) ⟨by decide, by decide⟩
  refine ⟨hsound, fun c hc hcrossing index hlt => ?_, ?_, ?_⟩
  · have hlookback : c.lookback = 3 := by
      simp only [overtakesMean, List.mem_cons, List.not_mem_nil, or_false] at hc
      rcases hc with rfl | rfl
      · rfl
      · cases hcrossing
    obtain ⟨hdecided, -, -⟩ := (decided_from_lookback hsound (Bar.flatHistory [1, 2, 4, 3, 5])).1 c hc index hlt
    rwa [hlookback] at hdecided
  · obtain ⟨c, hc, hcrossing, hlookback, hbelow, habove⟩ :
        ∃ c ∈ overtakesMean.conditions, c.operator.isCrossing = true ∧ c.lookback = 3 ∧
          c.holdsAt (Indicator.table overtakesMean.indicators (Bar.flatHistory [4, 2, 1, 3, 5]))
            (Bar.flatHistory [4, 2, 1, 3, 5]) 3 = false ∧
          c.holdsAt (Indicator.table overtakesMean.indicators (Bar.flatHistory [4, 2, 1, 3, 5]))
            (Bar.flatHistory [4, 2, 1, 3, 5]) 4 = true :=
      ⟨_, List.mem_cons_self, rfl, rfl, by decide +kernel, by decide +kernel⟩
    have hcompares := (decided_from_lookback hsound (Bar.flatHistory [4, 2, 1, 3, 5])).1 c hc
    refine ⟨c, hc, hcrossing, ?_, ?_⟩
    · rw [← hbelow]
      exact (hcompares 3 (by decide)).2.2 hlookback.le
    · rw [← habove]
      exact (hcompares 4 (by decide)).2.2 (by omega)
  · obtain ⟨fault, hfault⟩ : ∃ fault, overtakesMean.checkHistory (Bar.flatHistory [1, 2, 4]) = .error fault :=
      ⟨_, rfl⟩
    obtain ⟨-, -, hshort⟩ := decided_from_lookback hsound (Bar.flatHistory [1, 2, 4])
    obtain ⟨c, operand, required, -, -, -, -, -, hrequired, hfailure⟩ := hshort fault hfault
    exact ⟨fault, hfault, operand, required, hrequired, hfailure⟩

end Rule

end Backtest
