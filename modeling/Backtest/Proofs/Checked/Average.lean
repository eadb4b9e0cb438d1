import Backtest.Proofs.Causal
import Backtest.Proofs.Checked.Access

/-!
# Averages by positions

The running sum of `rollingMean` subtracts the number `n` positions before the newcomer, and
`exponentialMean` compares each position with the last one of its seed. Both are computed here by these
positions, and never trap (`rollingMean_eq`, `exponentialMean_eq`).

A seeded average that runs along a list is told by the position in front of which it stands (`running`, and
`wilderAt` for the smoothed averages), with a lemma for the entries of its list. The smoothed indicators
overwrite their series by it.
-/

namespace Backtest.Indicator

variable {α : Type}

/-! ## Seeded averages by position -/

theorem seeded_one_cons (seed : List α → α) (step : α → α → α) (x : α) (xs : List α) :
    seeded 1 seed step (x :: xs) = some (seed [x]) :: runningFrom step (seed [x]) xs := by
  rw [seeded_of_le Nat.one_ne_zero (by rw [List.length_cons]; omega)]
  rfl

theorem seeded_add_two_cons (n : Nat) (seed : List α → α) (step : α → α → α) (x : α) (xs : List α) :
    seeded (n + 2) seed step (x :: xs) =
      none :: seeded (n + 1) (fun first => seed (x :: first)) step xs := by
  by_cases h : n + 1 ≤ xs.length
  · rw [seeded_of_le (by omega) (by rw [List.length_cons]; omega), seeded_of_le (by omega) h]
    rfl
  · rw [seeded_of_short (.inr (by rw [List.length_cons]; omega)), seeded_of_short (.inr (by omega))]
    rfl

/-- The average in front of a position, where the first `n` numbers have the average `first`. -/
def running (n : Nat) (first : α) (step : α → α → α) (xs : List α) (i : Nat) : α :=
  ((xs.take i).drop n).foldl step first

@[simp] theorem running_self (n : Nat) (first : α) (step : α → α → α) (xs : List α) :
    running n first step xs n = first := by
  rw [running, List.drop_take, Nat.sub_self, List.take_zero, List.foldl_nil]

/-- The average takes up the number at a position. -/
theorem running_succ {n i : Nat} {first : α} {step : α → α → α} {xs : List α} {x : α} (hn : n ≤ i)
    (hx : xs[i]? = some x) :
    running n first step xs (i + 1) = step (running n first step xs i) x := by
  have hi : i < xs.length := (List.getElem?_eq_some_iff.mp hx).1
  rw [running, running, List.take_add_one, hx, Option.toList_some, List.drop_append_of_le_length
    (by rw [List.length_take]; omega), List.foldl_append]
  rfl

theorem runningFrom_getElem? (step : α → α → α) (xs : List α) :
    ∀ (average : α) (i : Nat), i < xs.length →
      (runningFrom step average xs)[i]? = some (some ((xs.take (i + 1)).foldl step average)) := by
  induction xs with
  | nil => exact fun _ i hi => absurd hi (Nat.not_lt_zero i)
  | cons x rest ih =>
    intro average i hi
    rw [runningFrom]
    cases i with
    | zero => rfl
    | succ i =>
      rw [List.getElem?_cons_succ, ih _ i (Nat.lt_of_succ_lt_succ hi)]
      rfl

/-- What a seeded average says at a position. -/
theorem seeded_getElem? {n i : Nat} {seed : List α → α} {step : α → α → α} {xs : List α} (hn : n ≠ 0)
    (hle : n ≤ xs.length) (hi : i < xs.length) :
    (seeded n seed step xs)[i]? =
      some (if i + 1 < n then none else some (running n (seed (xs.take n)) step xs (i + 1))) := by
  rw [seeded_of_le hn hle, List.getElem?_append, List.length_replicate]
  rcases Nat.lt_trichotomy i (n - 1) with h | h | h
  · rw [if_pos h, if_pos (by omega), List.getElem?_replicate, if_pos h]
  · rw [if_neg (by omega), if_neg (by omega), h, Nat.sub_self, Nat.sub_add_cancel (by omega),
      running_self]
    rfl
  · rw [if_neg (by omega), if_neg (by omega), show i - (n - 1) = (i - n) + 1 by omega,
      List.getElem?_cons_succ, runningFrom_getElem? _ _ _ _ (by rw [List.length_drop]; omega), running,
      List.drop_take, show i + 1 - n = i - n + 1 by omega]

/-- A value of a seeded average does not stand before the last number of its seed. -/
theorem seeded_eq_running {n i : Nat} {seed : List α → α} {step : α → α → α} {xs : List α} {v : α}
    (h : (seeded n seed step xs)[i]? = some (some v)) :
    n ≠ 0 ∧ n ≤ i + 1 ∧ i < xs.length ∧ v = running n (seed (xs.take n)) step xs (i + 1) := by
  have hi : i < xs.length := by
    have hlt := (List.getElem?_eq_some_iff.mp h).1
    rwa [(causal_seeded n seed step).length_eq] at hlt
  by_cases hshort : n = 0 ∨ xs.length < n
  · rw [seeded_of_short hshort, List.getElem?_map, List.getElem?_eq_getElem hi] at h
    cases h
  · obtain ⟨hn, hlong⟩ := not_or.mp hshort
    rw [seeded_getElem? hn (not_lt.mp hlong) hi] at h
    split_ifs at h with hearly
    · cases h
    · cases h
      exact ⟨hn, not_lt.mp hearly, hi, rfl⟩

variable [Scalar α]

/-- The mean of the first numbers, as the smoothed averages begin with it. -/
def wilderSeed (n : Nat) (first : List α) : α := Scalar.total first / (n : α)

/-- How the smoothed averages go on: the newcomer weighs `1 / n`. -/
def wilderStep (n : Nat) (average x : α) : α := (average * ((n : α) - (1 : Nat)) + x) / (n : α)

/-- The smoothed average in front of a position. -/
def wilderAt (n : Nat) (xs : List α) (i : Nat) : α :=
  running n (wilderSeed n (xs.take n)) (wilderStep n) xs i

theorem wilderAt_self (n : Nat) (xs : List α) : wilderAt n xs n = wilderSeed n (xs.take n) :=
  running_self _ _ _ _

theorem wilderAt_succ {n i : Nat} {xs : List α} {x : α} (hn : n ≤ i) (hx : xs[i]? = some x) :
    wilderAt n xs (i + 1) = wilderStep n (wilderAt n xs i) x := running_succ hn hx

/-- What each number behind the seed leaves true of the average remains true along the list. -/
theorem wilderAt_keeps {P : α → Prop} {n i j : Nat} {xs : List α}
    (hstep : ∀ average k x, n ≤ k → xs[k]? = some x → P average → P (wilderStep n average x)) (hn : n ≤ i)
    (hij : i ≤ j) (hj : j ≤ xs.length) (h : P (wilderAt n xs i)) : P (wilderAt n xs j) := by
  induction hij with
  | refl => exact h
  | step hle ih =>
    have hx := List.getElem?_eq_getElem (Nat.lt_of_succ_le hj)
    rw [wilderAt_succ (hn.trans hle) hx]
    exact hstep _ _ _ (hn.trans hle) hx (ih (Nat.le_of_succ_le hj))

theorem wilderMean_getElem? {n i : Nat} {xs : List α} (hn : n ≠ 0) (hle : n ≤ xs.length)
    (hi : i < xs.length) :
    (wilderMean n xs)[i]? = some (if i + 1 < n then none else some (wilderAt n xs (i + 1))) :=
  seeded_getElem? hn hle hi

theorem eq_wilderAt {n i : Nat} {xs : List α} {v : α} (h : (wilderMean n xs)[i]? = some (some v)) :
    n ≠ 0 ∧ n ≤ i + 1 ∧ i < xs.length ∧ v = wilderAt n xs (i + 1) := seeded_eq_running h

end Backtest.Indicator

namespace Backtest.Checked

open Indicator

variable {α : Type} [Scalar α]

/-! ## The mean of the last numbers -/

/-- The running sum from a position on. -/
def rollingFrom (n : Nat) (xs : List α) : Nat → α → List α → Checked (List (Option α))
  | _, _, [] => .ok []
  | i, sum, x :: rest => do
    let added := sum + x
    let current ← if n ≤ i then do
        let leaving ← get xs (← sub i n)
        .ok (added - leaving)
      else .ok added
    let seen ← add i 1
    let mean := if n ≤ seen then some (current / (n : α)) else none
    let means ← rollingFrom n xs (i + 1) current rest
    .ok (mean :: means)

def rollingMean (n : Nat) (xs : List α) : Checked (List (Option α)) :=
  if n = 0 then .ok (xs.map fun _ => none) else rollingFrom n xs 0 ((0 : Nat) : α) xs

theorem rollingFrom_eq {n : Nat} {xs : List α} (hxs : xs.length < 2 ^ 64) (rest : List α) :
    ∀ (i : Nat) (sum : α), xs.drop i = rest → i + rest.length = xs.length →
      rollingFrom n xs i sum rest = .ok (Indicator.rollingFrom n i sum (xs.drop (i - n)) rest) := by
  induction rest with
  | nil => exact fun i sum _ _ => rfl
  | cons x rest ih =>
    intro i sum hdrop hlength
    rw [List.length_cons] at hlength
    have hrest : xs.drop (i + 1) = rest := by rw [← List.drop_drop, hdrop, List.drop_one, List.tail_cons]
    rw [rollingFrom, Indicator.rollingFrom, add_eq (by omega)]
    -- what leaves the window is the head of a list there, and at the position `i - n` here
    by_cases hle : n ≤ i
    · have hlt : i - n < xs.length := by omega
      have hleaving : xs.drop (i - n) = xs[i - n] :: xs.drop (i + 1 - n) := by
        rw [List.drop_eq_getElem_cons hlt, Nat.sub_add_comm hle]
      simp only [if_pos hle, sub_eq hle, get_eq hlt, ok_bind, hleaving, List.headD_cons, List.tail_cons,
        ih (i + 1) _ hrest (by omega)]
    · have hsame : i - n = i + 1 - n := by omega
      simp only [if_neg hle, ok_bind, ih (i + 1) _ hrest (by omega), hsame]

theorem rollingMean_eq (n : Nat) {xs : List α} (hxs : xs.length < 2 ^ 64) :
    rollingMean n xs = .ok (Indicator.rollingMean n xs) := by
  rw [rollingMean, Indicator.rollingMean]
  split_ifs with hn
  · rfl
  · rw [rollingFrom_eq hxs xs 0 _ rfl (Nat.zero_add _), Nat.zero_sub, List.drop_zero]

/-! ## The exponential mean -/

/-- How the exponential mean goes on behind its seed. -/
def exponentialStep (n : Nat) (average x : α) : α :=
  let k : α := (2 : Nat) / ((n : α) + (1 : Nat))
  x * k + average * ((1 : Nat) - k)

/-- The exponential mean from a position on, where `sum` is the sum of the seed so far. -/
def exponentialFrom (n : Nat) : Nat → α → α → List α → Checked (List (Option α))
  | _, _, _, [] => .ok []
  | i, sum, average, x :: rest => do
    let last ← sub n 1
    if i < last then
      let means ← exponentialFrom n (i + 1) (sum + x) average rest
      .ok (none :: means)
    else if i = last then
      let means ← exponentialFrom n (i + 1) (sum + x) ((sum + x) / (n : α)) rest
      .ok (some ((sum + x) / (n : α)) :: means)
    else
      let means ← exponentialFrom n (i + 1) sum (exponentialStep n average x) rest
      .ok (some (exponentialStep n average x) :: means)

def exponentialMean (n : Nat) (xs : List α) : Checked (List (Option α)) :=
  if n = 0 then .ok (xs.map fun _ => none)
  else exponentialFrom n 0 ((0 : Nat) : α) ((0 : Nat) : α) xs

theorem exponentialFrom_behind {n : Nat} (hn : n ≠ 0) (rest : List α) :
    ∀ (i : Nat) (sum average : α), n ≤ i →
      exponentialFrom n i sum average rest = .ok (runningFrom (exponentialStep n) average rest) := by
  induction rest with
  | nil => exact fun i sum average _ => rfl
  | cons x rest ih =>
    intro i sum average hi
    rw [exponentialFrom, runningFrom, sub_eq (by omega), ok_bind, if_neg (by omega), if_neg (by omega),
      ih (i + 1) _ _ (by omega)]
    rfl

/-- Inside the seed the mean is seeded by the numbers that are missing, on top of the sum so far. -/
theorem exponentialFrom_inside {n : Nat} (hn : n ≠ 0) (rest : List α) :
    ∀ (i : Nat) (sum average : α), i < n →
      exponentialFrom n i sum average rest =
        .ok (seeded (n - i) (fun first => first.foldl (· + ·) sum / (n : α)) (exponentialStep n) rest) := by
  induction rest with
  | nil =>
    intro i sum average hi
    rw [seeded_of_short (.inr (by rw [List.length_nil]; omega))]
    rfl
  | cons x rest ih =>
    intro i sum average hi
    rw [exponentialFrom, sub_eq (by omega), ok_bind]
    by_cases hlast : i < n - 1
    · obtain ⟨m, hm⟩ : ∃ m, n - i = m + 2 := ⟨n - i - 2, by omega⟩
      rw [if_pos hlast, ih (i + 1) _ _ (by omega), hm, seeded_add_two_cons, ok_bind,
        show n - (i + 1) = m + 1 by omega]
      rfl
    · -- the last number of the seed
      rw [if_neg hlast, if_pos (by omega), exponentialFrom_behind hn _ _ _ _ (by omega),
        show n - i = 1 by omega, seeded_one_cons]
      rfl

theorem exponentialMean_eq (n : Nat) (xs : List α) :
    exponentialMean n xs = .ok (Indicator.exponentialMean n xs) := by
  rw [exponentialMean, Indicator.exponentialMean]
  split_ifs with hn
  · rw [seeded_of_short (.inl hn)]
  · exact exponentialFrom_inside hn xs 0 _ _ (Nat.pos_of_ne_zero hn)

end Backtest.Checked
