import Mathlib.Data.List.Induction
import Backtest.Cache.Threads

/-!
# The moves of a thread

`Threads.step` says by cases on an action and a phase what an action does. `Move` lists the same for the
actions of a thread, one constructor for each step that a thread can take, with the condition under which
it can take it: `Move key s p t q` says that a thread which asks for `key` can go from phase `p` to phase
`q`, and that the state, apart from this thread, goes from `s` to `t` then.

* `Threads.Steps`: what an action makes of a state; `Threads.steps_of_step` is the only place where the
  definitions of a step are opened.
* `Threads.run_invariant`: what every step keeps, a run keeps. In `Threads.run_induction` the invariant
  may also speak of how often a value was stored under a key so far (`Threads.stores`), in
  `Threads.run_history` of all the actions so far, and so of what was seen at them (`Threads.seen`).
-/

namespace Backtest.Cache

variable {κ ν ε : Type} [DecidableEq κ]

/-- The thread that an action moves. -/
def Action.thread? : Action κ ν ε → Option Nat
  | .advance thread => some thread
  | .arrive thread _ => some thread
  | _ => none

/-- The thread is about to store the value that it fetched. -/
def Phase.isStoring : Phase ν ε → Bool
  | .fetched _ (.ok _) => true
  | _ => false

/-- Whether an action removes the value under a key. -/
def Action.Removes (key : κ) : Action κ ν ε → Prop
  | .invalidate k => k = key
  | .clear => True
  | _ => False

/-- A thread that asks for a key goes from one phase to another one. -/
inductive Move (key : κ) (s : Threads κ ν ε) : Phase ν ε → Threads κ ν ε → Phase ν ε → Prop where
  | hit {x : Fetched ν} (h : s.entries.get? key = some x) : Move key s .started s (.done (.ok x))
  | miss (h : s.entries.get? key = none) : Move key s .started s .missed
  | join {lock : Nat} (h : s.locks.get? key = some lock) : Move key s .missed s (.waiting lock)
  | create (h : s.locks.get? key = none) :
    Move key s .missed { s with locks := s.locks.put key s.created, created := s.created + 1 }
      (.waiting s.created)
  | acquire {lock : Nat} (h : lock ∉ s.held) :
    Move key s (.waiting lock) { s with held := lock :: s.held } (.holding lock)
  | hitAgain {lock : Nat} {x : Fetched ν} (h : s.entries.get? key = some x) :
    Move key s (.holding lock) s (.leaving lock (.ok x))
  | missAgain {lock : Nat} (h : s.entries.get? key = none) :
    Move key s (.holding lock) s (.missedAgain lock)
  | begin {lock : Nat} :
    Move key s (.missedAgain lock) { s with fetches := s.fetches ++ [key] }
      (.fetching lock s.fetches.length)
  | succeed {lock fetch : Nat} (v : ν) :
    Move key s (.fetching lock fetch) s (.fetched lock (.ok ⟨some fetch, v⟩))
  | fail {lock fetch : Nat} (e : ε) : Move key s (.fetching lock fetch) s (.fetched lock (.error e))
  | store {lock : Nat} {x : Fetched ν} :
    Move key s (.fetched lock (.ok x)) { s with entries := s.entries.put key x } (.stored lock (.ok x))
  | skip {lock : Nat} {e : ε} : Move key s (.fetched lock (.error e)) s (.stored lock (.error e))
  | remove {lock : Nat} {answer : Except ε (Fetched ν)} :
    Move key s (.stored lock answer) { s with locks := s.locks.erase key } (.leaving lock answer)
  | release {lock : Nat} {answer : Except ε (Fetched ν)} :
    Move key s (.leaving lock answer) { s with held := s.held.erase lock } (.done answer)

namespace Threads

/-- What an action makes of a state. -/
inductive Steps (s : Threads κ ν ε) : Action κ ν ε → Threads κ ν ε → Prop where
  | get (key : κ) : Steps s (.get key) { s with threads := s.threads ++ [⟨key, .started⟩] }
  | move {a : Action κ ν ε} {i : Nat} {t : Thread κ ν ε} {next : Threads κ ν ε} {phase : Phase ν ε}
    (ha : a.thread? = some i) (hi : s.threads[i]? = some t) (h : Move t.key s t.phase next phase) :
    Steps s a (next.setPhase i t.key phase)
  | invalidate (key : κ) : Steps s (.invalidate key) { s with entries := s.entries.erase key }
  | clear : Steps s .clear { s with entries := [] }

theorem move_of_advance {s s' : Threads κ ν ε} {i : Nat} {t : Thread κ ν ε}
    (h : s.advance i t = some s') :
    ∃ next phase, Move t.key s t.phase next phase ∧ s' = next.setPhase i t.key phase := by
  obtain ⟨key, phase⟩ := t
  cases phase with
  | started =>
    simp only [advance] at h
    split at h
    · exact ⟨_, _, .hit ‹_›, (Option.some.inj h).symm⟩
    · exact ⟨_, _, .miss ‹_›, (Option.some.inj h).symm⟩
  | missed =>
    simp only [advance] at h
    split at h
    · exact ⟨_, _, .join ‹_›, (Option.some.inj h).symm⟩
    · exact ⟨_, _, .create ‹_›, (Option.some.inj h).symm⟩
  | waiting lock =>
    simp only [advance] at h
    split at h
    · cases h
    · exact ⟨_, _, .acquire ‹_›, (Option.some.inj h).symm⟩
  | holding lock =>
    simp only [advance] at h
    split at h
    · exact ⟨_, _, .hitAgain ‹_›, (Option.some.inj h).symm⟩
    · exact ⟨_, _, .missAgain ‹_›, (Option.some.inj h).symm⟩
  | missedAgain lock => exact ⟨_, _, .begin, (Option.some.inj h).symm⟩
  | fetching lock fetch => cases h
  | fetched lock answer =>
    cases answer with
    | ok x => exact ⟨_, _, .store, (Option.some.inj h).symm⟩
    | error e => exact ⟨_, _, .skip, (Option.some.inj h).symm⟩
  | stored lock answer => exact ⟨_, _, .remove, (Option.some.inj h).symm⟩
  | leaving lock answer => exact ⟨_, _, .release, (Option.some.inj h).symm⟩
  | done answer => cases h

theorem move_of_arrive {s s' : Threads κ ν ε} {i : Nat} {t : Thread κ ν ε} {result : Except ε ν}
    (h : s.arrive i t result = some s') :
    ∃ next phase, Move t.key s t.phase next phase ∧ s' = next.setPhase i t.key phase := by
  obtain ⟨key, phase⟩ := t
  cases phase with
  | fetching lock fetch =>
    cases result with
    | ok v => exact ⟨_, _, .succeed v, (Option.some.inj h).symm⟩
    | error e => exact ⟨_, _, .fail e, (Option.some.inj h).symm⟩
  | _ => cases h

/-- Every step of the threads is one of `Steps`. -/
theorem steps_of_step {s s' : Threads κ ν ε} {a : Action κ ν ε} (h : s.step a = some s') :
    s.Steps a s' := by
  cases a with
  | get key =>
    obtain rfl := Option.some.inj h
    exact .get key
  | advance i =>
    obtain ⟨t, hi, ht⟩ := Option.bind_eq_some_iff.mp h
    obtain ⟨next, phase, hmove, rfl⟩ := move_of_advance ht
    exact .move rfl hi hmove
  | arrive i result =>
    obtain ⟨t, hi, ht⟩ := Option.bind_eq_some_iff.mp h
    obtain ⟨next, phase, hmove, rfl⟩ := move_of_arrive ht
    exact .move rfl hi hmove
  | invalidate key =>
    obtain rfl := Option.some.inj h
    exact .invalidate key
  | clear =>
    obtain rfl := Option.some.inj h
    exact .clear

/-! ## The state behind a move -/

section

variable {s next : Threads κ ν ε} {key k : κ} {p q : Phase ν ε}

theorem threads_of_move (h : Move key s p next q) : next.threads = s.threads := by
  cases h <;> rfl

/-- A move of a thread that asks for another key leaves the value and the lock of a key as they are. -/
theorem get?_of_move (h : Move key s p next q) (hk : k ≠ key) :
    next.entries.get? k = s.entries.get? k ∧ next.locks.get? k = s.locks.get? k := by
  cases h <;> simp [Assoc.get?_put, Assoc.get?_erase, hk]

end

section

variable {s next : Threads κ ν ε} {i : Nat} {t : Thread κ ν ε} {phase : Phase ν ε}

/-- The threads behind a move: the one that moved is in its new phase, the others are as they were. -/
theorem getElem?_setPhase (hi : s.threads[i]? = some t) (h : Move t.key s t.phase next phase) (j : Nat) :
    (next.setPhase i t.key phase).threads[j]? =
      if i = j then some ⟨t.key, phase⟩ else s.threads[j]? := by
  have hlt : i < s.threads.length := (List.getElem?_eq_some_iff.mp hi).1
  rw [setPhase, threads_of_move h, List.getElem?_set]
  split_ifs
  · rfl
  · rfl

theorem mem_setPhase (h : Move t.key s t.phase next phase) {u : Thread κ ν ε}
    (hu : u ∈ (next.setPhase i t.key phase).threads) : u ∈ s.threads ∨ u = ⟨t.key, phase⟩ := by
  rw [setPhase, threads_of_move h] at hu
  exact List.mem_or_eq_of_mem_set hu

omit [DecidableEq κ] in
/-- A thread behind a `get` was there before, or has just begun. -/
theorem getElem?_get {k : κ} {j : Nat} {u : Thread κ ν ε}
    (h : (s.threads ++ [⟨k, .started⟩])[j]? = some u) : s.threads[j]? = some u ∨ u = ⟨k, .started⟩ := by
  rw [List.getElem?_append] at h
  split_ifs at h
  · exact .inl h
  · exact .inr (by simpa using List.mem_of_getElem? h)

omit [DecidableEq κ] in
theorem mem_get {k : κ} {u : Thread κ ν ε} (h : u ∈ s.threads ++ [⟨k, .started⟩]) :
    u ∈ s.threads ∨ u = ⟨k, .started⟩ := by
  simpa using h

/-- How many threads ask for a key and are in one of some phases. -/
def count (s : Threads κ ν ε) (key : κ) (phases : Phase ν ε → Bool) : Nat :=
  s.threads.countP fun t => t.key = key && phases t.phase

/-- A count behind a move of a thread that asks for the key. -/
theorem count_setPhase (hi : s.threads[i]? = some t) (h : Move t.key s t.phase next phase)
    (phases : Phase ν ε → Bool) :
    (next.setPhase i t.key phase).count t.key phases + (phases t.phase).toNat =
      s.count t.key phases + (phases phase).toNat := by
  obtain ⟨hlt, rfl⟩ := List.getElem?_eq_some_iff.mp hi
  rw [count, count, setPhase, threads_of_move h, List.countP_set hlt]
  have hpos : phases s.threads[i].phase = true →
      0 < s.threads.countP fun u => u.key = s.threads[i].key && phases u.phase :=
    fun hp => List.countP_pos_iff.mpr ⟨_, List.getElem_mem hlt, by simp [hp]⟩
  cases hp : phases s.threads[i].phase <;> cases phases phase <;>
    simp only [hp, forall_const, decide_true, Bool.and_true, Bool.and_false, Bool.toNat_true,
      Bool.toNat_false, if_true, if_false, Bool.false_eq_true] at hpos ⊢ <;> omega

/-- A count behind a move of another thread. -/
theorem count_setPhase_of_ne (hi : s.threads[i]? = some t) (h : Move t.key s t.phase next phase)
    {key : κ} (hkey : t.key ≠ key) (phases : Phase ν ε → Bool) :
    (next.setPhase i t.key phase).count key phases = s.count key phases := by
  obtain ⟨hlt, rfl⟩ := List.getElem?_eq_some_iff.mp hi
  rw [count, count, setPhase, threads_of_move h, List.countP_set hlt]
  simp [hkey]

theorem count_get (s : Threads κ ν ε) (key k : κ) {phases : Phase ν ε → Bool}
    (hp : phases .started = false) :
    count { s with threads := s.threads ++ [⟨k, .started⟩] } key phases = s.count key phases := by
  simp [count, hp]

end

/-! ## Runs -/

/-- What each step keeps, a run keeps. -/
theorem run_invariant {P : Threads κ ν ε → Prop} (hstep : ∀ {s a s'}, P s → s.Steps a s' → P s')
    {actions : List (Action κ ν ε)} {s s' : Threads κ ν ε} (h : P s) (hrun : s.run actions = some s') :
    P s' := by
  induction actions generalizing s with
  | nil =>
    obtain rfl := Option.some.inj hrun
    exact h
  | cons a rest ih =>
    obtain ⟨next, hnext, hrun⟩ := Option.bind_eq_some_iff.mp hrun
    exact ih (hstep h (steps_of_step hnext)) hrun

/-- How often a value is stored under a key in an action: once if the thread that moves has fetched it. -/
def storesAt (s : Threads κ ν ε) (key : κ) (a : Action κ ν ε) : Nat :=
  match a.thread?.bind fun i => s.threads[i]? with
  | some t => (t.key = key && t.phase.isStoring).toNat
  | none => 0

/-- How often a value is stored under a key in a run. -/
def stores (s : Threads κ ν ε) (key : κ) : List (Action κ ν ε) → Nat
  | [] => 0
  | a :: rest => s.storesAt key a + ((s.step a).elim 0 fun next => next.stores key rest)

/-- What each step keeps that `ok` allows, a run of such steps keeps, where the invariant may speak of how
often a value was stored under a key so far. -/
theorem run_induction {P : Nat → Threads κ ν ε → Prop} {ok : Action κ ν ε → Prop} {key : κ}
    (hstep : ∀ {n s a s'}, P n s → ok a → s.Steps a s' → P (n + s.storesAt key a) s')
    {actions : List (Action κ ν ε)} (hok : ∀ a ∈ actions, ok a) {n : Nat} {s s' : Threads κ ν ε}
    (h : P n s) (hrun : s.run actions = some s') : P (n + s.stores key actions) s' := by
  induction actions generalizing n s with
  | nil =>
    obtain rfl := Option.some.inj hrun
    exact h
  | cons a rest ih =>
    obtain ⟨hfirst, hrest⟩ := List.forall_mem_cons.mp hok
    obtain ⟨next, hnext, hrun⟩ := Option.bind_eq_some_iff.mp hrun
    have hkeep := ih hrest (hstep h hfirst (steps_of_step hnext)) hrun
    rwa [stores, hnext, Option.elim_some, ← Nat.add_assoc]

theorem run_concat {s s' : Threads κ ν ε} {actions : List (Action κ ν ε)} {a : Action κ ν ε} :
    s.run (actions ++ [a]) = some s' ↔ ∃ t, s.run actions = some t ∧ t.step a = some s' := by
  induction actions generalizing s with
  | nil => simp [run]
  | cons b rest ih =>
    rw [List.cons_append, run, run]
    cases s.step b with
    | none => simp
    | some next => exact ih

/-- What holds at first, and is kept by every action that `ok` allows, holds after a run of such actions,
where the invariant may speak of the actions so far. -/
theorem run_history {s : Threads κ ν ε} {P : List (Action κ ν ε) → Threads κ ν ε → Prop}
    {ok : Action κ ν ε → Prop} (hfirst : P [] s)
    (hstep : ∀ {past a t t'}, (∀ b ∈ past, ok b) → s.run past = some t → P past t → ok a →
      t.step a = some t' → P (past ++ [a]) t')
    {actions : List (Action κ ν ε)} (hok : ∀ a ∈ actions, ok a) {s' : Threads κ ν ε}
    (hrun : s.run actions = some s') : P actions s' := by
  induction actions using List.reverseRecOn generalizing s' with
  | nil =>
    obtain rfl := Option.some.inj hrun
    exact hfirst
  | append_singleton past a ih =>
    obtain ⟨t, hpast, hlast⟩ := run_concat.mp hrun
    have hokPast : ∀ b ∈ past, ok b := fun b hb => hok b (List.mem_append_left _ hb)
    exact hstep hokPast hpast (ih hokPast hpast) (hok a (by simp)) hlast

/-- What is seen in a run, where `look` tells what is seen in a state when an action happens there. -/
def seen {β : Type} (look : Threads κ ν ε → Action κ ν ε → List β) (s : Threads κ ν ε) :
    List (Action κ ν ε) → List β
  | [] => []
  | a :: rest => look s a ++ (s.step a).elim [] fun next => next.seen look rest

theorem seen_concat {β : Type} (look : Threads κ ν ε → Action κ ν ε → List β) {s t : Threads κ ν ε}
    {actions : List (Action κ ν ε)} {a : Action κ ν ε} (hrun : s.run actions = some t) :
    s.seen look (actions ++ [a]) = s.seen look actions ++ look t a := by
  induction actions generalizing s with
  | nil =>
    obtain rfl := Option.some.inj hrun
    cases h : s.step a <;> simp [seen, h]
  | cons b rest ih =>
    obtain ⟨next, hnext, hrest⟩ := Option.bind_eq_some_iff.mp hrun
    rw [List.cons_append, seen, seen, hnext, Option.elim_some, Option.elim_some, ih hrest,
      List.append_assoc]

end Threads

end Backtest.Cache
