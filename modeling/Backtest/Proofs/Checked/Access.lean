import Mathlib

/-!
# Checked positions

A machine that works by positions in lists can be stopped by a position behind the end, by a piece that is
no piece, by a difference below zero, and by a sum of more than 64 bits. `Checked` computations are stopped
by these (`Trap`); in the modules below this one the whole way from a candidate to its report is computed so,
position by position, and is shown to give what the program gives.

* `Checked.get`, `put`, `slice`, `sub`, `add`: the steps that may trap, each with the condition under which it
  does not.
* `mapM_eq`, `mapM_zipIdx`, `foldlM_positions`, `foldlM_zipIdx`: loops, by what is known in front of each step.
* `Answer`: a computation by positions that may also refuse; `answer` is one that no trap keeps back.
* `filled`: a list that a loop overwrites from its beginning on.
-/

namespace Backtest

/-- What stops a computation by positions. -/
inductive Trap where
  /-- A position behind the end of a list. -/
  | index
  /-- A piece that begins or ends outside of a list, or ends before it begins. -/
  | slice
  /-- A difference below zero. -/
  | underflow
  /-- A sum of more than 64 bits. -/
  | overflow
  deriving DecidableEq

/-- A computation by positions, which may be stopped. -/
abbrev Checked (β : Type) : Type := Except Trap β

namespace Checked

variable {β γ σ : Type}

/-- The element at a position. -/
def get (xs : List β) (i : Nat) : Checked β :=
  match xs[i]? with
  | some x => .ok x
  | none => .error .index

/-- The list with another element at a position. -/
def put (xs : List β) (i : Nat) (x : β) : Checked (List β) :=
  if i < xs.length then .ok (xs.set i x) else .error .index

/-- The elements from one position on up to another, which is left out. -/
def slice (xs : List β) (start stop : Nat) : Checked (List β) :=
  if start ≤ stop ∧ stop ≤ xs.length then .ok ((xs.take stop).drop start) else .error .slice

def sub (a b : Nat) : Checked Nat := if b ≤ a then .ok (a - b) else .error .underflow

def add (a b : Nat) : Checked Nat := if a + b < 2 ^ 64 then .ok (a + b) else .error .overflow

@[simp] theorem ok_bind (x : β) (f : β → Checked γ) : (Except.ok x : Checked β) >>= f = f x := rfl

theorem get_of_getElem? {xs : List β} {i : Nat} {x : β} (h : xs[i]? = some x) : get xs i = .ok x := by
  rw [get, h]

theorem get_eq {xs : List β} {i : Nat} (h : i < xs.length) : get xs i = .ok xs[i] :=
  get_of_getElem? (List.getElem?_eq_getElem h)

theorem put_eq {xs : List β} {i : Nat} (h : i < xs.length) (x : β) : put xs i x = .ok (xs.set i x) :=
  if_pos h

theorem slice_eq {xs : List β} {start stop : Nat} (h : start ≤ stop) (hstop : stop ≤ xs.length) :
    slice xs start stop = .ok ((xs.take stop).drop start) :=
  if_pos ⟨h, hstop⟩

theorem sub_eq {a b : Nat} (h : b ≤ a) : sub a b = .ok (a - b) := if_pos h

theorem add_eq {a b : Nat} (h : a + b < 2 ^ 64) : add a b = .ok (a + b) := if_pos h

/-! ## Refusals -/

/-- A computation by positions that gives a result or a refusal. -/
abbrev Answer (ε β : Type) : Type := ExceptT ε Checked β

section

variable {ε ε' β γ : Type}

/-- A result or a refusal that no trap keeps back. -/
def answer (x : Except ε β) : Answer ε β := ExceptT.mk (.ok x)

/-- A computation by positions that does not refuse. -/
def lift (x : Checked β) : Answer ε β := ExceptT.lift x

@[simp] theorem run_answer (x : Except ε β) : (answer x).run = .ok x := rfl

@[simp] theorem answer_ok_bind (b : β) (f : β → Answer ε γ) : answer (.ok b) >>= f = f b := rfl

@[simp] theorem throw_eq_answer (e : ε) : (throw e : Answer ε β) = answer (.error e) := rfl

@[simp] theorem lift_ok_bind (b : β) (f : β → Answer ε γ) : lift (.ok b) >>= f = f b := rfl

/-- What follows an answer gives an answer, if it does so behind each result. -/
theorem answer_bind {x : Except ε β} {f : β → Answer ε γ} {g : β → Except ε γ}
    (h : ∀ b, x = .ok b → f b = answer (g b)) : answer x >>= f = answer (x >>= g) := by
  cases x with
  | error e => rfl
  | ok b => exact h b rfl

/-- An answer whose refusal is told in other words. -/
def refusing (f : ε → ε') (x : Answer ε β) : Answer ε' β := ExceptT.adapt f x

theorem refusing_answer (f : ε → ε') (x : Except ε β) : refusing f (answer x) = answer (x.mapError f) := by
  cases x <;> rfl

end

/-! ## Loops -/

/-- A loop that makes one element of each. -/
theorem mapM_eq {f : β → Checked γ} {g : β → γ} {xs : List β} (h : ∀ x ∈ xs, f x = .ok (g x)) :
    xs.mapM f = .ok (xs.map g) := by
  induction xs with
  | nil => rfl
  | cons x rest ih =>
    rw [List.mapM_cons, h x List.mem_cons_self, ih fun y hy => h y (List.mem_cons_of_mem x hy)]
    rfl

/-- A loop that makes one element of each, of which the results are known. -/
theorem mapM_of_forall₂ {f : β → Checked γ} {xs : List β} {ys : List γ}
    (h : List.Forall₂ (fun x y => f x = .ok y) xs ys) : xs.mapM f = .ok ys := by
  induction h with
  | nil => rfl
  | cons hxy _ ih =>
    rw [List.mapM_cons, hxy, ih]
    rfl

/-- A loop over elements and their positions, of which the results are known. -/
theorem mapM_zipIdx {f : β × Nat → Checked γ} {xs : List β} {ys : List γ} (hlength : xs.length = ys.length)
    (h : ∀ i (hx : i < xs.length) (hy : i < ys.length), f (xs[i], i) = .ok ys[i]) :
    xs.zipIdx.mapM f = .ok ys := by
  refine mapM_of_forall₂ (List.forall₂_iff_get.mpr ⟨by simpa using hlength, fun i hx hy => ?_⟩)
  have hi : i < xs.length := hlength ▸ hy
  simpa using h i hi hy

/-- The positions from one on up to another, which is left out; none if it is not behind the first. -/
def positions (start stop : Nat) : List Nat := List.range' start (stop - start)

/-- A loop over positions whose state in front of each position is known. -/
theorem foldlM_positions {f : σ → Nat → Checked σ} {start stop : Nat} (state : Nat → σ)
    (hle : start ≤ stop)
    (h : ∀ i, start ≤ i → i < stop → f (state i) i = .ok (state (i + 1))) :
    (positions start stop).foldlM f (state start) = .ok (state stop) := by
  obtain ⟨n, rfl⟩ := Nat.exists_eq_add_of_le hle
  rw [positions, Nat.add_sub_cancel_left]
  clear hle
  induction n generalizing start with
  | zero => rfl
  | succ n ih =>
    rw [List.range'_succ, List.foldlM_cons, h start (Nat.le_refl _) (by omega), ok_bind,
      ih fun i hi hlt => h i (by omega) (by omega), Nat.add_right_comm]
    rfl

/-- A loop over elements and their positions whose state in front of each position is known. -/
theorem foldlM_zipIdx {f : σ → β × Nat → Checked σ} {xs : List β} (state : Nat → σ)
    (h : ∀ i (hi : i < xs.length), f (state i) (xs[i], i) = .ok (state (i + 1))) :
    xs.zipIdx.foldlM f (state 0) = .ok (state xs.length) := by
  suffices hfrom : ∀ (ys : List β) (k : Nat),
      (∀ i (hi : i < ys.length), f (state (k + i)) (ys[i], k + i) = .ok (state (k + i + 1))) →
        (ys.zipIdx k).foldlM f (state k) = .ok (state (k + ys.length)) by
    simpa using hfrom xs 0 (by simpa using h)
  intro ys
  induction ys with
  | nil => exact fun k _ => rfl
  | cons y rest ih =>
    intro k hy
    have hfirst := hy 0 (Nat.zero_lt_succ _)
    have hrest := ih (k + 1) fun i hi => by
      have := hy (i + 1) (Nat.succ_lt_succ hi)
      simpa [Nat.add_comm, Nat.add_left_comm] using this
    rw [List.zipIdx_cons, List.foldlM_cons]
    simp only [List.getElem_cons_zero, Nat.add_zero] at hfirst
    rw [hfirst, ok_bind, hrest, List.length_cons]
    congr 2
    omega

/-! ## A list that is overwritten -/

/-- A list whose elements in front of a position come from another list. -/
def filled (target blank : List β) (i : Nat) : List β := target.take i ++ blank.drop i

section

variable {target blank : List β} {i : Nat}

theorem getElem?_filled (hlength : target.length = blank.length) (j : Nat) :
    (filled target blank i)[j]? = if j < i then target[j]? else blank[j]? := by
  rw [filled, List.getElem?_append, List.length_take, List.getElem?_take, List.getElem?_drop]
  split_ifs with hj hi hi
  · rfl
  · omega
  · rw [List.getElem?_eq_none (by omega), List.getElem?_eq_none (by omega)]
  · rcases Nat.le_total i target.length with hi | hi
    · rw [Nat.min_eq_left hi, Nat.add_sub_cancel' (by omega)]
    · rw [List.getElem?_eq_none (by omega), List.getElem?_eq_none (by omega)]

@[simp] theorem length_filled (hlength : target.length = blank.length) :
    (filled target blank i).length = blank.length := by
  rw [filled, List.length_append, List.length_take, List.length_drop]
  omega

/-- When all positions are passed, nothing is left of the list that was there before. -/
theorem filled_of_le (hlength : target.length = blank.length) (h : target.length ≤ i) :
    filled target blank i = target := by
  rw [filled, List.take_of_length_le h, List.drop_eq_nil_of_le (hlength ▸ h), List.append_nil]

/-- As long as both lists agree, nothing has changed. -/
theorem filled_of_agree (hlength : target.length = blank.length) (h : ∀ j < i, target[j]? = blank[j]?) :
    filled target blank i = blank := by
  refine List.ext_getElem? fun j => ?_
  rw [getElem?_filled hlength]
  split_ifs with hj
  · exact h j hj
  · rfl

theorem filled_succ_of_agree (hlength : target.length = blank.length) (h : target[i]? = blank[i]?) :
    filled target blank (i + 1) = filled target blank i := by
  refine List.ext_getElem? fun j => ?_
  rw [getElem?_filled hlength, getElem?_filled hlength]
  rcases Nat.lt_trichotomy j i with hj | rfl | hj
  · rw [if_pos hj, if_pos (by omega)]
  · rw [if_pos (Nat.lt_succ_self j), if_neg (Nat.lt_irrefl j), h]
  · rw [if_neg (by omega), if_neg (by omega)]

/-- Overwriting the next element. -/
theorem put_filled (hlength : target.length = blank.length) {x : β} (h : target[i]? = some x) :
    put (filled target blank i) i x = .ok (filled target blank (i + 1)) := by
  have hi : i < target.length := (List.getElem?_eq_some_iff.mp h).1
  rw [put_eq (by rw [length_filled hlength]; omega)]
  congr 1
  refine List.ext_getElem? fun j => ?_
  rw [List.getElem?_set, getElem?_filled hlength, getElem?_filled hlength, length_filled hlength]
  rcases Nat.lt_trichotomy i j with hj | rfl | hj
  · rw [if_neg (by omega), if_neg (by omega), if_neg (by omega)]
  · rw [if_pos rfl, if_pos (by omega), if_pos (Nat.lt_succ_self i), h]
  · rw [if_neg (by omega), if_pos hj, if_pos (by omega)]

end

end Checked

end Backtest
