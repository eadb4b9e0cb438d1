import Backtest.Indicator.Series
import Backtest.Proofs.Checked.Average

/-!
# Series by positions

The smoothed indicators and the divergence begin with a series without values and overwrite it from the end of
their warm-up on, bar by bar. The bands look back at the window of closes that ends at each mean. `Checked.table`
computes the series of a rule so; `table_eq`: it never traps, and gives the table of the program.

What carries each loop: in front of a position, the series is the finished one up to there and empty behind
(`partway`), and the averages are those of the numbers before it (`wilderAt`).
-/

namespace Backtest.Checked

open Indicator

variable {α : Type} {bars : List (Bar α)}

/-! ## Overwriting a series -/

/-- A series of the readings at the bars. -/
def dated (bars : List (Bar α)) (readings : List (Option (Reading α))) : List (Point α) :=
  List.zipWith (fun b r => ⟨b.date, r⟩) bars readings

/-- A series without values. -/
def blank (bars : List (Bar α)) : List (Point α) := bars.map fun b => ⟨b.date, none⟩

/-- A series with a reading at one more bar. -/
def mark (bars : List (Bar α)) (values : List (Point α)) (i : Nat) (reading : Reading α) :
    Checked (List (Point α)) := do
  let bar ← get bars i
  put values i ⟨bar.date, some reading⟩

theorem getElem?_dated {readings : List (Option (Reading α))} {i : Nat} {r : Option (Reading α)}
    (hi : i < bars.length) (hr : readings[i]? = some r) :
    (dated bars readings)[i]? = some ⟨bars[i].date, r⟩ := by
  rw [dated, List.getElem?_zipWith, List.getElem?_eq_getElem hi, hr]

theorem getElem?_blank {i : Nat} (hi : i < bars.length) :
    (blank bars)[i]? = some ⟨bars[i].date, none⟩ := by
  rw [blank, List.getElem?_map, List.getElem?_eq_getElem hi, Option.map_some]

theorem dated_replicate : dated bars (List.replicate bars.length none) = blank bars := by
  rw [dated, blank, ← List.map_const', List.zipWith_map_right, List.zipWith_self]

section

variable {readings : List (Option (Reading α))}

/-- The series of some readings up to a position, and no values behind. -/
def partway (bars : List (Bar α)) (readings : List (Option (Reading α))) (i : Nat) : List (Point α) :=
  filled (dated bars readings) (blank bars) i

theorem length_dated (hlength : readings.length = bars.length) :
    (dated bars readings).length = (blank bars).length := by
  rw [dated, blank, List.length_zipWith, List.length_map, hlength, Nat.min_self]

theorem partway_of_le (hlength : readings.length = bars.length) {i : Nat} (h : bars.length ≤ i) :
    partway bars readings i = dated bars readings := by
  refine filled_of_le (length_dated hlength) ?_
  rwa [length_dated hlength, blank, List.length_map]

/-- The series is empty up to the end of the warm-up. -/
theorem partway_of_warmup (hlength : readings.length = bars.length) {n : Nat}
    (hwarm : ∀ i < n, i < bars.length → readings[i]? = some none) : partway bars readings n = blank bars := by
  refine filled_of_agree (length_dated hlength) fun j hj => ?_
  rcases Nat.lt_or_ge j bars.length with hlt | hge
  · rw [getElem?_dated hlt (hwarm j hj hlt), getElem?_blank hlt]
  · rw [List.getElem?_eq_none, List.getElem?_eq_none]
    · rwa [blank, List.length_map]
    · rw [length_dated hlength]
      rwa [blank, List.length_map]

theorem mark_partway (hlength : readings.length = bars.length) {i : Nat} {r : Reading α}
    (hr : readings[i]? = some (some r)) :
    mark bars (partway bars readings i) i r = .ok (partway bars readings (i + 1)) := by
  have hi : i < bars.length := hlength ▸ (List.getElem?_eq_some_iff.mp hr).1
  rw [mark, get_eq hi, ok_bind, partway, put_filled (length_dated hlength) (getElem?_dated hi hr)]
  rfl

theorem partway_succ (hlength : readings.length = bars.length) {i : Nat} (hr : readings[i]? = some none) :
    partway bars readings (i + 1) = partway bars readings i := by
  have hi : i < bars.length := hlength ▸ (List.getElem?_eq_some_iff.mp hr).1
  refine filled_succ_of_agree (length_dated hlength) ?_
  rw [getElem?_dated hi hr, getElem?_blank hi]

/-- A series whose first value, at the position `first`, is told by a seed, and whose values from the position
`next` on are told by what becomes of the seed from step to step. -/
def overwrite {σ : Type} (bars : List (Bar α)) (first next : Nat) (seed : σ) (step : σ → Nat → Checked σ)
    (say : σ → Reading α) : Checked (List (Point α)) := do
  let values ← mark bars (blank bars) first (say seed)
  let (_, values) ← (positions next bars.length).foldlM (fun (average, values) i => do
      let average ← step average i
      let values ← mark bars values i (say average)
      .ok (average, values)) (seed, values)
  .ok values

theorem overwrite_eq {σ : Type} {first : Nat} {step : σ → Nat → Checked σ} {say : σ → Reading α}
    (average : Nat → σ) (hlength : readings.length = bars.length) (hfirst : first < bars.length)
    (hreading : ∀ i < bars.length,
      readings[i]? = some (if i < first then none else some (say (average i))))
    (hstep : ∀ i, first ≤ i → i + 1 < bars.length → step (average i) (i + 1) = .ok (average (i + 1))) :
    overwrite bars first (first + 1) (average first) step say = .ok (dated bars readings) := by
  have hseed : mark bars (blank bars) first (say (average first)) = .ok (partway bars readings (first + 1)) := by
    rw [← partway_of_warmup hlength fun i hi hlt => by rw [hreading i hlt, if_pos hi]]
    exact mark_partway hlength (by rw [hreading first hfirst, if_neg (Nat.lt_irrefl first)])
  -- in front of a position, the loop has the average before it and the readings before it
  have hloop : (positions (first + 1) bars.length).foldlM (fun (average, values) i => do
      let average ← step average i
      let values ← mark bars values i (say average)
      .ok (average, values)) (average first, partway bars readings (first + 1)) =
        .ok (average (bars.length - 1), partway bars readings bars.length) := by
    refine foldlM_positions (fun i => (average (i - 1), partway bars readings i)) hfirst fun i hi hlt => ?_
    obtain ⟨j, rfl⟩ : ∃ j, i = j + 1 := ⟨i - 1, by omega⟩
    have hr := hreading (j + 1) hlt
    rw [if_neg (by omega)] at hr
    simp only [Nat.add_sub_cancel, hstep j (by omega) hlt, ok_bind, mark_partway hlength hr]
  rw [overwrite, hseed, ok_bind, hloop, ok_bind, partway_of_le hlength (Nat.le_refl _)]

end

variable [Scalar α]

/-! ## The average true range -/

def trueRanges (bars : List (Bar α)) : Checked (List α) :=
  bars.zipIdx.mapM fun (bar, i) =>
    if i = 0 then .ok (bar.high - bar.low)
    else do
      let before ← get bars (← sub i 1)
      .ok (bar.trueRange before.close)

theorem length_trueRanges : (Indicator.trueRanges bars).length = bars.length := causal_trueRanges.length_eq bars

theorem trueRanges_eq : trueRanges bars = .ok (Indicator.trueRanges bars) := by
  refine mapM_zipIdx length_trueRanges.symm fun i hx hy => ?_
  match bars, i with
  | b :: rest, 0 => rfl
  | b :: rest, i + 1 =>
    have hi : i < (b :: rest).length := Nat.lt_of_succ_lt hx
    simp only [Nat.succ_ne_zero, if_false, sub_eq (Nat.le_add_left 1 i), Nat.add_sub_cancel, get_eq hi, ok_bind,
      Indicator.trueRanges, List.getElem_cons_succ, List.getElem_zipWith]

def averageTrueRange (n : Nat) (bars : List (Bar α)) : Checked (List (Point α)) :=
  if n = 0 ∨ bars.length < n then .ok (blank bars)
  else do
    let ranges ← trueRanges bars
    let seed := wilderSeed n (← slice ranges 0 n)
    overwrite bars (← sub n 1) n seed
      (fun average i => do .ok (wilderStep n average (← get ranges i))) .single

theorem averageTrueRange_eq (n : Nat) (bars : List (Bar α)) :
    averageTrueRange n bars =
      .ok (dated bars ((Indicator.averageTrueRange n bars).map (·.map .single))) := by
  have hranges : (Indicator.trueRanges bars).length = bars.length := length_trueRanges
  rw [averageTrueRange]
  split_ifs with h
  · rw [Indicator.averageTrueRange, wilderMean, seeded_of_short (by rwa [hranges]), List.map_const',
      List.map_replicate, Option.map_none, hranges, dated_replicate]
  · obtain ⟨m, rfl⟩ : ∃ m, n = m + 1 := Nat.exists_eq_succ_of_ne_zero (by omega)
    have hle : m + 1 ≤ bars.length := by omega
    rw [trueRanges_eq, ok_bind, slice_eq (Nat.zero_le _) (hle.trans_eq hranges.symm), ok_bind,
      sub_eq (Nat.le_add_left 1 m), ok_bind, List.drop_zero, ← wilderAt_self, Nat.add_sub_cancel]
    refine overwrite_eq (fun i => wilderAt (m + 1) (Indicator.trueRanges bars) (i + 1))
      (by rw [List.length_map, (causal_averageTrueRange _).length_eq]) hle (fun i hi => ?_) fun i hi hlt => ?_
    · rw [List.getElem?_map, Indicator.averageTrueRange,
        wilderMean_getElem? (Nat.add_one_ne_zero m) (hle.trans_eq hranges.symm) (hi.trans_eq hranges.symm),
        Option.map_some]
      simp only [Nat.add_lt_add_iff_right]
      split_ifs <;> rfl
    · have hx : i + 1 < (Indicator.trueRanges bars).length := hlt.trans_eq hranges.symm
      rw [get_eq hx, ok_bind, ← wilderAt_succ (by omega) (List.getElem?_eq_getElem hx)]

/-! ## The relative strength index -/

/-- The pieces of two neighbours. -/
def neighbours {β : Type} : List β → List (List β)
  | x :: y :: rest => [x, y] :: neighbours (y :: rest)
  | _ => []

def changes (bars : List (Bar α)) : Checked (List α) :=
  (neighbours bars).mapM fun pair => do
    let now ← get pair 1
    let before ← get pair 0
    .ok (now.close - before.close)

theorem changes_eq (bars : List (Bar α)) : changes bars = .ok (Indicator.changes (bars.map (·.close))) := by
  refine mapM_of_forall₂ ?_
  induction bars with
  | nil => exact .nil
  | cons b rest ih =>
    match rest with
    | [] => exact .nil
    | c :: rest => exact .cons rfl ih

def relativeStrength (n : Nat) (bars : List (Bar α)) : Checked (List (Point α)) :=
  if n = 0 ∨ bars.length ≤ n then .ok (blank bars)
  else do
    let _room ← sub bars.length 1
    let moves ← changes bars
    let gains := moves.map gain
    let losses := moves.map loss
    let seed := (wilderSeed n (← slice gains 0 n), wilderSeed n (← slice losses 0 n))
    overwrite bars n (← add n 1) seed
      (fun (gain, loss) i => do
        let gain := wilderStep n gain (← get gains (← sub i 1))
        let loss := wilderStep n loss (← get losses (← sub i 1))
        .ok (gain, loss))
      fun (gain, loss) => .single (strength gain loss)

theorem length_changes (closes : List α) : (Indicator.changes closes).length = closes.length - 1 := by
  rw [Indicator.changes, List.length_zipWith, List.length_tail]
  omega

/-- What the relative strength index says at a position. -/
theorem relativeStrength_getElem? {n i : Nat} {closes : List α} (hn : n ≠ 0) (hle : n < closes.length)
    (hi : i < closes.length) :
    (Indicator.relativeStrength n closes)[i]? =
      some (if i < n then none else
        some (strength (wilderAt n ((Indicator.changes closes).map gain) i)
          (wilderAt n ((Indicator.changes closes).map loss) i))) := by
  have hmoves (f : α → α) : ((Indicator.changes closes).map f).length = closes.length - 1 := by
    rw [List.length_map, length_changes]
  match closes, i with
  | c :: rest, 0 => rw [if_pos (Nat.pos_of_ne_zero hn)]; rfl
  | c :: rest, i + 1 =>
    have hmean (f : α → α) : (wilderMean n ((Indicator.changes (c :: rest)).map f))[i]? = some
        (if i + 1 < n then none else some (wilderAt n ((Indicator.changes (c :: rest)).map f) (i + 1))) :=
      wilderMean_getElem? hn (by rw [hmoves]; omega) (by rw [hmoves]; omega)
    rw [Indicator.relativeStrength, List.getElem?_cons_succ, List.getElem?_zipWith, hmean, hmean]
    split_ifs <;> rfl

theorem relativeStrength_of_short {n : Nat} {closes : List α} (h : n = 0 ∨ closes.length ≤ n) :
    Indicator.relativeStrength n closes = List.replicate closes.length none := by
  match closes with
  | [] => rfl
  | c :: rest =>
    have hmean (f : α → α) : wilderMean n ((Indicator.changes (c :: rest)).map f) =
        List.replicate rest.length none := by
      have hlength : ((Indicator.changes (c :: rest)).map f).length = rest.length := by
        rw [List.length_map, length_changes, List.length_cons, Nat.add_sub_cancel]
      rw [List.length_cons] at h
      rw [wilderMean, seeded_of_short (by omega), List.map_const', hlength]
    rw [Indicator.relativeStrength, hmean, hmean, List.zipWith_replicate', List.length_cons,
      List.replicate_succ]
    rfl

theorem relativeStrength_eq (n : Nat) (hbars : bars.length < 2 ^ 64) :
    relativeStrength n bars =
      .ok (dated bars ((Indicator.relativeStrength n (bars.map (·.close))).map (·.map .single))) := by
  have hcloses : (bars.map (·.close)).length = bars.length := List.length_map _
  rw [relativeStrength]
  split_ifs with h
  · rw [relativeStrength_of_short (by rwa [hcloses]), List.map_replicate, Option.map_none, hcloses,
      dated_replicate]
  · obtain ⟨hn, hle⟩ : n ≠ 0 ∧ n < bars.length := by omega
    have hmoves (f : α → α) : ((Indicator.changes (bars.map (·.close))).map f).length = bars.length - 1 := by
      rw [List.length_map, length_changes, hcloses]
    have hslice (f : α → α) : slice ((Indicator.changes (bars.map (·.close))).map f) 0 n =
        .ok (((Indicator.changes (bars.map (·.close))).map f).take n) :=
      slice_eq (Nat.zero_le n) (by rw [hmoves]; omega)
    simp only [sub_eq (Nat.one_le_of_lt hle), changes_eq, hslice, add_eq (show n + 1 < 2 ^ 64 by omega), ok_bind,
      ← wilderAt_self]
    refine overwrite_eq (fun i => (wilderAt n ((Indicator.changes (bars.map (·.close))).map gain) i,
      wilderAt n ((Indicator.changes (bars.map (·.close))).map loss) i))
      ?_ hle (fun i hi => ?_) fun i hi hlt => ?_
    · rw [List.length_map, (causal_relativeStrength n).length_eq, hcloses]
    · rw [List.getElem?_map, relativeStrength_getElem? hn (hle.trans_eq hcloses.symm)
        (hi.trans_eq hcloses.symm), Option.map_some]
      split_ifs <;> rfl
    · have hx (f : α → α) : i < ((Indicator.changes (bars.map (·.close))).map f).length := by
        rw [hmoves]
        omega
      simp only [sub_eq (Nat.le_add_left 1 i), Nat.add_sub_cancel, get_eq (hx _), ok_bind,
        wilderAt_succ hi (List.getElem?_eq_getElem (hx _))]

/-! ## The divergence -/

/-- The line, from the first close on at which both means are there. -/
def divergenceLine (fast slow : Nat) (closes : List α) : Checked (List α) := do
  let fastMeans ← exponentialMean fast closes
  let slowMeans ← exponentialMean slow closes
  let start ← sub (max slow fast) 1
  (positions start closes.length).mapM fun i => do
    let f ← get fastMeans i
    let s ← get slowMeans i
    match f, s with
    | some f, some s => .ok (f - s)
    -- what is no number, where a mean is missing
    | _, _ => .ok ((0 : Nat) / (0 : Nat))

theorem map_some_filterMap {β γ : Type} {g : β → Option γ} {xs : List β} (h : ∀ x ∈ xs, (g x).isSome) :
    (xs.filterMap g).map some = xs.map g := by
  induction xs with
  | nil => rfl
  | cons x rest ih =>
    obtain ⟨y, hy⟩ := Option.isSome_iff_exists.mp (h x List.mem_cons_self)
    rw [List.filterMap_cons_some hy, List.map_cons, List.map_cons, hy,
      ih fun z hz => h z (List.mem_cons_of_mem x hz)]

theorem exists_exponentialMean {n i : Nat} (hn : n ≠ 0) {closes : List α} (hle : n - 1 ≤ i)
    (hi : i < closes.length) : ∃ m, (Indicator.exponentialMean n closes)[i]? = some (some m) := by
  obtain ⟨v, hv⟩ : ∃ v, (Indicator.exponentialMean n closes)[i]? = some v :=
    ⟨_, List.getElem?_eq_getElem (by rwa [(causal_exponentialMean n).length_eq])⟩
  have hsome : v.isSome := by
    rw [Indicator.exponentialMean] at hv
    exact seeded_isSome hn hle hv
  obtain ⟨m, rfl⟩ := Option.isSome_iff_exists.mp hsome
  exact ⟨m, hv⟩

/-- At each position of the line both means have a value. -/
theorem divergenceLine_getElem? {fast slow : Nat} (hf : fast ≠ 0) (hs : slow ≠ 0) {closes : List α} {i : Nat}
    (hi : max slow fast - 1 + i < closes.length) :
    ∃ f s, (Indicator.exponentialMean fast closes)[max slow fast - 1 + i]? = some (some f) ∧
      (Indicator.exponentialMean slow closes)[max slow fast - 1 + i]? = some (some s) ∧
      (Indicator.divergenceLine fast slow closes)[i]? = some (f - s) := by
  have hpair (j : Nat) (hj : max slow fast - 1 + j < closes.length) :
      ∃ f s, (Indicator.exponentialMean fast closes)[max slow fast - 1 + j]? = some (some f) ∧
        (Indicator.exponentialMean slow closes)[max slow fast - 1 + j]? = some (some s) := by
    obtain ⟨f, hfast⟩ := exists_exponentialMean hf (by omega) hj
    obtain ⟨s, hslow⟩ := exists_exponentialMean hs (by omega) hj
    exact ⟨f, s, hfast, hslow⟩
  let pairs := ((Indicator.exponentialMean fast closes).zip (Indicator.exponentialMean slow closes)).drop
    (max slow fast - 1)
  let difference : Option α × Option α → Option α := fun p => do pure ((← p.1) - (← p.2))
  -- no entry is left out of the line, so its positions are those of the pairs
  have hline : (Indicator.divergenceLine fast slow closes).map some = pairs.map difference := by
    refine map_some_filterMap ?_
    rintro ⟨f', s'⟩ hp
    obtain ⟨j, hj⟩ := List.mem_iff_getElem?.mp hp
    rw [List.getElem?_drop] at hj
    obtain ⟨hfast, hslow⟩ := List.getElem?_zip_eq_some.mp hj
    have hj' := (List.getElem?_eq_some_iff.mp hfast).1
    obtain ⟨f, s, hf', hs'⟩ := hpair j (by rwa [(causal_exponentialMean fast).length_eq] at hj')
    cases hf'.symm.trans hfast
    cases hs'.symm.trans hslow
    rfl
  obtain ⟨f, s, hfast, hslow⟩ := hpair i hi
  have hi' : pairs[i]? = some (some f, some s) := by
    rw [List.getElem?_drop]
    exact List.getElem?_zip_eq_some.mpr ⟨hfast, hslow⟩
  refine ⟨f, s, hfast, hslow, ?_⟩
  have hentry := congrArg (·[i]?) hline
  simp only [List.getElem?_map, hi', Option.map_some] at hentry
  obtain ⟨x, hx, hxy⟩ := Option.map_eq_some_iff.mp hentry
  exact hx.trans hxy

/-- The line reads two means of which none is missing. -/
theorem divergenceLine_eq {fast slow : Nat} (hf : fast ≠ 0) (hs : slow ≠ 0) (closes : List α) :
    divergenceLine fast slow closes = .ok (Indicator.divergenceLine fast slow closes) := by
  have hlength := length_divergenceLine hf hs closes
  rw [divergenceLine, exponentialMean_eq, ok_bind, exponentialMean_eq, ok_bind, sub_eq (by omega), ok_bind]
  refine mapM_of_forall₂ (List.forall₂_iff_get.mpr ⟨?_, fun i hx hy => ?_⟩)
  · rw [positions, List.length_range', hlength]
  · rw [positions, List.length_range'] at hx
    have hi : max slow fast - 1 + i < closes.length := by omega
    obtain ⟨f, s, hfast, hslow, hline⟩ := divergenceLine_getElem? hf hs hi
    have hposition : (positions (max slow fast - 1) closes.length).get ⟨i, by simpa [positions] using hx⟩ =
        max slow fast - 1 + i := by
      simp [positions]
    rw [hposition, get_of_getElem? hfast, ok_bind, get_of_getElem? hslow, ok_bind]
    exact congrArg Except.ok (List.getElem?_eq_some_iff.mp hline).2.symm

def divergence (fast slow signal : Nat) (bars : List (Bar α)) : Checked (List (Point α)) :=
  if fast = 0 ∨ slow = 0 ∨ signal = 0 ∨ bars.length < slow then .ok (blank bars)
  else do
    let start ← sub (max slow fast) 1
    let line ← divergenceLine fast slow (bars.map (·.close))
    let means ← exponentialMean signal line
    (line.zip means).zipIdx.foldlM (fun values ((l, mean), offset) =>
      match mean with
      | some s => do mark bars values (← add start offset) (.macd l s (l - s))
      | none => .ok values) (blank bars)

section

variable {fast slow signal : Nat} {closes : List α}

theorem divergence_of_long (h : ¬ (fast = 0 ∨ slow = 0 ∨ signal = 0 ∨ closes.length < slow)) :
    Indicator.divergence fast slow signal closes =
      List.replicate (min (max slow fast - 1) closes.length) none ++
        List.zipWith (fun l mean => mean.map fun s => .macd l s (l - s))
          (Indicator.divergenceLine fast slow closes)
          (Indicator.exponentialMean signal (Indicator.divergenceLine fast slow closes)) := if_neg h

theorem divergence_warmup (h : ¬ (fast = 0 ∨ slow = 0 ∨ signal = 0 ∨ closes.length < slow)) {i : Nat}
    (hi : i < max slow fast - 1) (hlt : i < closes.length) :
    (Indicator.divergence fast slow signal closes)[i]? = some none := by
  rw [divergence_of_long h, List.getElem?_append_left (by rw [List.length_replicate]; omega),
    List.getElem?_replicate, if_pos (by omega)]

/-- What the divergence says where the line has its entry number `o`. -/
theorem divergence_getElem? (h : ¬ (fast = 0 ∨ slow = 0 ∨ signal = 0 ∨ closes.length < slow)) {o : Nat} {l : α}
    {mean : Option α} (hl : (Indicator.divergenceLine fast slow closes)[o]? = some l)
    (hmean : (Indicator.exponentialMean signal (Indicator.divergenceLine fast slow closes))[o]? = some mean) :
    (Indicator.divergence fast slow signal closes)[max slow fast - 1 + o]? =
      some (mean.map fun s => .macd l s (l - s)) := by
  have ho := (List.getElem?_eq_some_iff.mp hl).1
  rw [length_divergenceLine (by omega) (by omega)] at ho
  rw [divergence_of_long h, List.getElem?_append_right (by rw [List.length_replicate]; omega),
    List.length_replicate, Nat.min_eq_left (by omega), Nat.add_sub_cancel_left, List.getElem?_zipWith, hl, hmean]

end

theorem divergence_eq (fast slow signal : Nat) (hbars : bars.length < 2 ^ 64) :
    divergence fast slow signal bars =
      .ok (dated bars (Indicator.divergence fast slow signal (bars.map (·.close)))) := by
  have hcloses : (bars.map (·.close)).length = bars.length := List.length_map _
  have hlength := ((causal_divergence fast slow signal).length_eq (bars.map (·.close))).trans hcloses
  rw [divergence]
  split_ifs with h
  · rw [Indicator.divergence, if_pos (by rwa [hcloses]), List.map_const', hcloses, dated_replicate]
  · have hlong : ¬ (fast = 0 ∨ slow = 0 ∨ signal = 0 ∨ (bars.map (·.close)).length < slow) := by rwa [hcloses]
    let start := max slow fast - 1
    let line := Indicator.divergenceLine fast slow (bars.map (·.close))
    let means := Indicator.exponentialMean signal line
    let readings := Indicator.divergence fast slow signal (bars.map (·.close))
    have hwarm : partway bars readings (start + 0) = blank bars :=
      partway_of_warmup hlength fun i hi hlt => divergence_warmup hlong hi (hlt.trans_eq hcloses.symm)
    have hloop : (line.zip means).zipIdx.foldlM (fun values ((l, mean), offset) =>
        match mean with
        | some s => do mark bars values (← add start offset) (.macd l s (l - s))
        | none => .ok values) (partway bars readings (start + 0)) =
          .ok (partway bars readings (start + (line.zip means).length)) := by
      refine foldlM_zipIdx (fun o => partway bars readings (start + o)) fun o ho => ?_
      rcases hp : (line.zip means)[o] with ⟨l, mean⟩
      obtain ⟨hl, hmean⟩ := List.getElem?_zip_eq_some.mp (hp ▸ List.getElem?_eq_getElem ho)
      have hread := divergence_getElem? hlong hl hmean
      cases mean with
      | none => exact congrArg Except.ok (partway_succ hlength hread).symm
      | some s =>
        have hlt : start + o < bars.length := hlength ▸ (List.getElem?_eq_some_iff.mp hread).1
        simp only [add_eq (hlt.trans hbars), ok_bind]
        exact mark_partway hlength hread
    have hend : bars.length ≤ start + (line.zip means).length := by
      rw [List.length_zip, (causal_exponentialMean signal).length_eq, Nat.min_self,
        length_divergenceLine (by omega) (by omega), hcloses]
      omega
    rw [sub_eq (by omega), ok_bind, divergenceLine_eq (by omega) (by omega), ok_bind, exponentialMean_eq,
      ok_bind, ← hwarm, hloop, partway_of_le hlength hend]

/-! ## Bands -/

/-- The bands around the mean of a window. -/
def bandsAround (n hundredths : Nat) (middle : α) (window : List α) : Reading α :=
  let width := (hundredths : α) / (100 : Nat) * Scalar.sqrt (variance n middle window)
  .bands (middle + width) middle (middle - width)

def bands (n hundredths : Nat) (bars : List (Bar α)) : Checked (List (Point α)) := do
  let closes := bars.map (·.close)
  let means ← rollingMean n closes
  means.zipIdx.mapM fun (mean, i) =>
    match mean with
    | some middle => do
      let window ← slice closes (← sub (← add i 1) n) (← add i 1)
      let bar ← get bars i
      .ok ⟨bar.date, some (bandsAround n hundredths middle window)⟩
    | none => do
      let bar ← get bars i
      .ok ⟨bar.date, none⟩

theorem bands_getElem? (n hundredths : Nat) (closes : List α) (i : Nat) :
    (Indicator.bands n hundredths closes)[i]? = ((Indicator.rollingMean n closes)[i]?).map fun mean =>
      mean.map fun middle => bandsAround n hundredths middle (windowAt n i closes) := by
  rw [Indicator.bands, List.getElem?_map, List.getElem?_zipIdx, Nat.zero_add, Option.map_map]
  rfl

omit [Scalar α] in
/-- The window of a mean is there: `n` closes up to it. -/
theorem slice_windowAt {n i : Nat} {closes : List α} (hn : n ≤ i + 1) (hi : i < closes.length) :
    slice closes (i + 1 - n) (i + 1) = .ok (windowAt n i closes) := by
  rw [slice_eq (Nat.sub_le _ n) hi, windowAt, List.drop_take, Nat.sub_sub_self hn]

theorem bands_eq (n hundredths : Nat) (hbars : bars.length < 2 ^ 64) :
    bands n hundredths bars = .ok (dated bars (Indicator.bands n hundredths (bars.map (·.close)))) := by
  have hcloses : (bars.map (·.close)).length = bars.length := List.length_map _
  have hmeans := (causal_rollingMean n).length_eq (bars.map (·.close))
  have hbands := (causal_bands n hundredths).length_eq (bars.map (·.close))
  rw [bands, rollingMean_eq n (hcloses.trans_lt hbars), ok_bind]
  refine mapM_zipIdx (by rw [dated, List.length_zipWith]; omega) fun i hx hy => ?_
  have hi : i < bars.length := by omega
  have hmean := List.getElem?_eq_getElem hx
  have hreading := bands_getElem? n hundredths (bars.map (·.close)) i
  rw [hmean, Option.map_some] at hreading
  rw [← Option.some.inj ((getElem?_dated hi hreading).symm.trans (List.getElem?_eq_getElem hy))]
  cases hm : (Indicator.rollingMean n (bars.map (·.close)))[i] with
  | none => simp only [get_eq hi, ok_bind, Option.map_none]
  | some middle =>
    have hn : n ≤ i + 1 := le_of_rollingMean_eq_some (hm ▸ hmean)
    simp only [add_eq (show i + 1 < 2 ^ 64 by omega), sub_eq hn, ok_bind,
      slice_windowAt hn (hi.trans_eq hcloses.symm), get_eq hi, Option.map_some]

/-! ## Series and tables -/

/-- What an indicator says along the bars. -/
def points (i : Indicator) (bars : List (Bar α)) : Checked (List (Point α)) :=
  let closes := bars.map (·.close)
  match i with
  | .sma n => do
    let means ← rollingMean n closes
    .ok (dated bars (means.map (·.map .single)))
  | .ema n => do
    let means ← exponentialMean n closes
    .ok (dated bars (means.map (·.map .single)))
  | .rsi n => relativeStrength n bars
  | .atr n => averageTrueRange n bars
  | .macd fast slow signal => divergence fast slow signal bars
  | .bollinger n hundredths => bands n hundredths bars

theorem points_eq (i : Indicator) (hbars : bars.length < 2 ^ 64) :
    points i bars = .ok (i.series bars).points := by
  have hcloses : (bars.map (·.close)).length < 2 ^ 64 := by rwa [List.length_map]
  cases i with
  | sma n => rw [points, rollingMean_eq n hcloses]; rfl
  | ema n => rw [points, exponentialMean_eq]; rfl
  | rsi n => exact relativeStrength_eq n hbars
  | atr n => exact averageTrueRange_eq n bars
  | macd fast slow signal => exact divergence_eq fast slow signal hbars
  | bollinger n hundredths => exact bands_eq n hundredths hbars

def table (is : List Indicator) (bars : List (Bar α)) : Checked (Table α) :=
  (distinct is).mapM fun i => do
    let points ← points i bars
    .ok ⟨i, points⟩

/-- The series of a rule are computed without a trap, whatever the periods are. -/
theorem table_eq (is : List Indicator) (hbars : bars.length < 2 ^ 64) :
    table is bars = .ok (Indicator.table is bars) :=
  mapM_eq fun i _ => by rw [points_eq i hbars]; rfl

end Backtest.Checked
