import Backtest.Signal
import Backtest.Proofs.SoundRule
import Backtest.Proofs.Checked.Access

/-!
# Conditions and signals by positions

What a rule asks of its bars: the sums of its lookbacks, the bar in front of a crossing, and one position of
all signals at once. `signal_eq`: the signal of a rule is computed without a trap, since all its signals are as
long as the bars. `requiredBars_eq`: the bars that a rule requires are counted without a trap when the number
fits in 64 bits.
-/

namespace Backtest.Checked

variable {α : Type}

/-! ## How many bars a rule requires -/

def indicatorLookback : Indicator → Checked Nat
  | .sma n | .ema n | .atr n | .bollinger n _ => .ok (n - 1)
  | .rsi n => .ok n
  | .macd _ slow signal => add (slow - 1) (signal - 1)

def operandLookback (o : Operand α) : Checked Nat :=
  match o.indicator? with
  | some i => indicatorLookback i
  | none => .ok 0

def conditionLookback (c : Condition α) : Checked Nat := do
  let left ← operandLookback c.left
  let right ← operandLookback c.right
  if c.operator.isCrossing then add (max left right) 1 else .ok (max left right)

def limitingOperand (c : Condition α) : Checked (Operand α) := do
  let right ← operandLookback c.right
  let left ← operandLookback c.left
  .ok (if left < right then c.right else c.left)

/-- The last one of the conditions with the longest lookback. -/
def limitingCondition? (r : Rule α) : Checked (Option (Condition α)) := do
  let keyed ← r.conditions.mapM fun c => do
    let lookback ← conditionLookback c
    .ok (lookback, c)
  let best := keyed.foldl (fun best c =>
    match best with
    | none => some c
    | some b => if c.1 < b.1 then some b else some c) none
  .ok (best.map (·.2))

def requiredBars (r : Rule α) : Checked Nat := do
  match ← limitingCondition? r with
  | some c => do add (← conditionLookback c) 1
  | none => .ok 1

theorem indicatorLookback_eq {i : Indicator} (h : i.lookback < 2 ^ 64) :
    indicatorLookback i = .ok i.lookback := by
  cases i with
  | macd _ slow signal => exact add_eq h
  | _ => rfl

theorem operandLookback_eq {o : Operand α} (h : o.lookback < 2 ^ 64) :
    operandLookback o = .ok o.lookback := by
  match o with
  | .constant _ | .source .price | .source .volume => rfl
  | .source (.indicator i _) => exact indicatorLookback_eq h

section

variable {c : Condition α} (h : c.requiredBars < 2 ^ 64)

include h

theorem operandLookback_left : operandLookback c.left = .ok c.left.lookback := by
  refine operandLookback_eq ?_
  have := Nat.le_max_left c.left.lookback c.right.lookback
  rw [Condition.requiredBars, Condition.lookback] at h
  omega

theorem operandLookback_right : operandLookback c.right = .ok c.right.lookback := by
  refine operandLookback_eq ?_
  have := Nat.le_max_right c.left.lookback c.right.lookback
  rw [Condition.requiredBars, Condition.lookback] at h
  omega

theorem conditionLookback_eq : conditionLookback c = .ok c.lookback := by
  rw [conditionLookback, operandLookback_left h, ok_bind, operandLookback_right h, ok_bind, Condition.lookback]
  rw [Condition.requiredBars, Condition.lookback] at h
  split_ifs at h ⊢
  · exact add_eq (by omega)
  · rfl

theorem limitingOperand_eq : limitingOperand c = .ok c.limitingOperand := by
  rw [limitingOperand, operandLookback_right h, ok_bind, operandLookback_left h]
  rfl

end

/-- A fold over conditions with their lookbacks, of which only the condition is kept, is a fold over the
conditions. -/
theorem foldl_keyed {keyed : Option (Nat × Condition α) → Nat × Condition α → Option (Nat × Condition α)}
    {step : Option (Condition α) → Condition α → Option (Condition α)}
    (hstep : ∀ best c, keyed (best.map fun c : Condition α => (c.lookback, c)) (c.lookback, c) =
      (step best c).map fun c => (c.lookback, c)) (cs : List (Condition α)) :
    ((cs.map fun c => (c.lookback, c)).foldl keyed none).map (·.2) = cs.foldl step none := by
  have hhom : cs.foldl (fun best c => keyed best (c.lookback, c)) (none.map fun c : Condition α => (c.lookback, c)) =
      (cs.foldl step none).map fun c => (c.lookback, c) :=
    List.foldl_hom (Option.map fun c : Condition α => (c.lookback, c)) hstep
  rw [List.foldl_map]
  refine (congrArg (Option.map (·.2)) hhom).trans ?_
  rw [Option.map_map]
  exact congrFun Option.map_id _

section

variable {r : Rule α} (h : ∀ c ∈ r.conditions, c.requiredBars < 2 ^ 64)

include h

theorem limitingCondition?_eq : limitingCondition? r = .ok r.limitingCondition? := by
  have hkeyed : (r.conditions.mapM fun c => do
      let lookback ← conditionLookback c
      .ok (lookback, c)) = .ok (r.conditions.map fun c => (c.lookback, c)) :=
    mapM_eq fun c hc => by rw [conditionLookback_eq (h c hc), ok_bind]
  rw [limitingCondition?, hkeyed, ok_bind]
  refine congrArg Except.ok (foldl_keyed (fun best c => ?_) r.conditions)
  cases best with
  | none => rfl
  | some b =>
    simp only [Option.map_some]
    split_ifs <;> rfl

theorem requiredBars_eq : requiredBars r = .ok r.requiredBars := by
  rw [requiredBars, limitingCondition?_eq h, ok_bind, Rule.requiredBars]
  cases hlimiting : r.limitingCondition? with
  | none => rfl
  | some c =>
    have hc := h c (Rule.limitingCondition?_mem hlimiting)
    simp only [conditionLookback_eq hc, ok_bind]
    exact add_eq hc

end

/-! ## Signals -/

section

variable [Scalar α]

def holdsAt (c : Condition α) (table : Indicator.Table α) (bars : List (Bar α)) (i : Nat) : Checked Bool :=
  match c.left.valueAt table bars i, c.right.valueAt table bars i with
  | some l, some r =>
    if !c.operator.isCrossing then .ok (c.operator.compares l r)
    else if i = 0 then .ok false
    else do
      let before ← sub i 1
      match c.left.valueAt table bars before, c.right.valueAt table bars before with
      | some l', some r' => .ok (c.operator.comparesBefore l' r' && c.operator.compares l r)
      | _, _ => .ok false
  | _, _ => .ok false

theorem holdsAt_eq (c : Condition α) (table : Indicator.Table α) (bars : List (Bar α)) (i : Nat) :
    holdsAt c table bars i = .ok (c.holdsAt table bars i) := by
  rw [holdsAt, Condition.holdsAt.eq_def, Condition.testAt]
  rcases c.left.valueAt table bars i with _ | l
  · rfl
  rcases c.right.valueAt table bars i with _ | r
  · rfl
  cases c.operator.isCrossing with
  | false => simp
  | true =>
    cases i with
    | zero => simp
    | succ before =>
      simp only [Bool.not_true, Bool.false_eq_true, if_false, Nat.add_one_ne_zero, sub_eq (Nat.le_add_left 1 before),
        Nat.add_sub_cancel, ok_bind, Bool.false_or, Condition.testAt]
      rcases c.left.valueAt table bars before with _ | l'
      · simp
      rcases c.right.valueAt table bars before with _ | r'
      · simp
      · simp [Bool.and_comm]

/-- Several signals in one, position by position. -/
def combine (how : Combination) (signals : List (List Bool)) : Checked (List Bool) :=
  match signals with
  | [] => .ok []
  | first :: _ => (List.range first.length).mapM fun i =>
    match how with
    | .all => signals.allM fun s => get s i
    | .any => signals.anyM fun s => get s i

section

variable {signals : List (List Bool)} {i : Nat} (h : ∀ s ∈ signals, i < s.length)

include h

theorem allM_get : (signals.allM fun s => get s i) = .ok (signals.all fun s => s[i]?.getD false) := by
  induction signals with
  | nil => rfl
  | cons s rest ih =>
    have hs := h s List.mem_cons_self
    rw [List.allM, get_eq hs, ok_bind, List.all_cons, List.getElem?_eq_getElem hs, Option.getD_some]
    cases s[i] with
    | false => rfl
    | true => exact ih fun t ht => h t (List.mem_cons_of_mem s ht)

theorem anyM_get : (signals.anyM fun s => get s i) = .ok (signals.any fun s => s[i]?.getD false) := by
  induction signals with
  | nil => rfl
  | cons s rest ih =>
    have hs := h s List.mem_cons_self
    rw [List.anyM, get_eq hs, ok_bind, List.any_cons, List.getElem?_eq_getElem hs, Option.getD_some]
    cases s[i] with
    | true => rfl
    | false => exact ih fun t ht => h t (List.mem_cons_of_mem s ht)

end

theorem signal_cons (how : Combination) (first : List Bool) (rest : List (List Bool)) :
    how.signal (first :: rest) =
      (List.range first.length).map fun i => how.combine ((first :: rest).map fun s => s[i]?.getD false) := by
  refine List.ext_getElem (by simp [Combination.signal]) fun i hi _ => ?_
  have hfirst : i < first.length := by simpa [Combination.signal] using hi
  simp [Combination.signal, hfirst]

theorem combine_eq (how : Combination) {signals : List (List Bool)} {n : Nat}
    (h : ∀ s ∈ signals, s.length = n) : combine how signals = .ok (how.signal signals) := by
  match signals with
  | [] => rfl
  | first :: rest =>
    rw [signal_cons]
    refine mapM_eq fun i hi => ?_
    have hall : ∀ s ∈ first :: rest, i < s.length := fun s hs => by
      rw [h s hs, ← h first List.mem_cons_self]
      exact List.mem_range.mp hi
    cases how with
    | all => exact (allM_get hall).trans (by rw [Combination.combine, List.all_map]; rfl)
    | any => exact (anyM_get hall).trans (by rw [Combination.combine, List.any_map]; rfl)

def signal (r : Rule α) (table : Indicator.Table α) (bars : List (Bar α)) : Checked (List Bool) := do
  let signals ← r.conditions.mapM fun c => (List.range bars.length).mapM (holdsAt c table bars)
  combine r.combination signals

theorem signal_eq (r : Rule α) (table : Indicator.Table α) (bars : List (Bar α)) :
    signal r table bars = .ok (r.signal table bars) := by
  have hsignals : (r.conditions.mapM fun c => (List.range bars.length).mapM (holdsAt c table bars)) =
      .ok (r.conditions.map fun c => c.signal table bars) :=
    mapM_eq fun c _ => mapM_eq fun i _ => holdsAt_eq c table bars i
  rw [signal, hsignals, ok_bind]
  refine combine_eq (n := bars.length) _ fun s hs => ?_
  obtain ⟨c, -, rfl⟩ := List.mem_map.mp hs
  rw [Condition.signal, List.length_map, List.length_range]

end

end Backtest.Checked
