import Backtest.Proofs.Moves

/-!
# Locks left in the table

A thread that fetched takes the lock of its key out of the table before it is done. A thread that finds a
value when it looks the second time does not: it leaves the table as it is. If the lock that it holds is the
one of the thread that fetched, this is harmless. But a thread that missed the key and asks for the lock only
when the other one is done creates a new lock, and this one stays in the table (`run_lockLeft`).

There is no other way to leave a lock behind: `run_locks_left` says that when no thread is on its way, every
lock in the table is of a key that some thread found a value for only when it held the lock.
-/

namespace Backtest.Cache

variable {κ ν ε : Type}

namespace Phase

/-- The thread has asked for the lock of its key, and has neither taken it out of the table nor found a
value. -/
def mayRemove : Phase ν ε → Bool
  | .waiting _ | .holding _ | .missedAgain _ | .fetching .. | .fetched .. | .stored .. => true
  | _ => false

/-- The thread is done. -/
def isDone (p : Phase ν ε) : Bool := p.answer?.isSome

theorem mayRemove_of_isDone {p : Phase ν ε} (h : p.isDone = true) : p.mayRemove = false := by
  cases p with
  | done _ => rfl
  | _ => cases h

end Phase

variable [DecidableEq κ]

namespace Threads

/-- The key of a thread that finds a value for it in an action, with the lock in its hands. -/
def lateFindAt (s : Threads κ ν ε) : Action κ ν ε → List κ
  | .advance thread =>
    match s.threads[thread]? with
    | some ⟨key, .holding _⟩ => if (s.entries.get? key).isSome then [key] else []
    | _ => []
  | _ => []

/-- The keys for which a thread found a value only when it looked the second time. -/
def lateFinds (s : Threads κ ν ε) (actions : List (Action κ ν ε)) : List κ := s.seen lateFindAt actions

section

variable {s s' next : Threads κ ν ε} {key : κ} {p q : Phase ν ε} {a : Action κ ν ε} {i : Nat}
  {t : Thread κ ν ε}

/-- If the key has a lock behind a move, the thread may take it out, or had nothing to take out, or finds a
value with the lock in its hands. -/
theorem mayRemove_of_move (h : Move key s p next q) (hlock : next.locks.get? key ≠ none) :
    q.mayRemove = true ∨ (p.mayRemove = false ∧ s.locks.get? key ≠ none) ∨
      ∃ lock, p = .holding lock ∧ (s.entries.get? key).isSome = true := by
  cases h with
  | hit _ | miss _ | release => exact .inr (.inl ⟨rfl, hlock⟩)
  | hitAgain hx => exact .inr (.inr ⟨_, rfl, by rw [hx]; rfl⟩)
  | remove => exact absurd (by rw [Assoc.get?_erase, if_pos rfl]) hlock
  | _ => exact .inl rfl

theorem lateFindAt_of_step (hstep : s.step a = some s') (ha : a.thread? = some i)
    (hi : s.threads[i]? = some t) {lock : Nat} (hp : t.phase = .holding lock)
    (hsome : (s.entries.get? t.key).isSome = true) : t.key ∈ s.lateFindAt a := by
  obtain ⟨k, phase⟩ := t
  obtain rfl : phase = .holding lock := hp
  cases a with
  | advance j =>
    obtain rfl := Option.some.inj ha
    simp [lateFindAt, hi, hsome]
  | arrive j result =>
    obtain rfl := Option.some.inj ha
    rw [step, hi] at hstep
    cases hstep
  | get _ | invalidate _ | clear => cases ha

/-- A thread that did not move is as it was. -/
theorem mem_setPhase_of_ne (hi : s.threads[i]? = some t) (h : Move t.key s t.phase next q)
    {u : Thread κ ν ε} (hu : u ∈ s.threads) (hne : u ≠ t) :
    u ∈ (next.setPhase i t.key q).threads := by
  obtain ⟨j, hj⟩ := List.mem_iff_getElem?.mp hu
  have hij : i ≠ j := by
    rintro rfl
    exact hne (Option.some.inj (hj.symm.trans hi))
  exact List.mem_of_getElem? ((getElem?_setPhase hi h j).trans ((if_neg hij).trans hj))

end

/-- The lock of a key is in the table only for a thread that may still take it out, or because a thread
found a value late. -/
def Accounted (s : Threads κ ν ε) (key : κ) (late : List κ) : Prop :=
  s.locks.get? key ≠ none →
    (∃ t ∈ s.threads, t.key = key ∧ t.phase.mayRemove = true) ∨ key ∈ late

theorem Accounted.step {s s' : Threads κ ν ε} {key : κ} {late : List κ} {a : Action κ ν ε}
    (hs : s.Accounted key late) (hstep : s.step a = some s') :
    s'.Accounted key (late ++ s.lateFindAt a) := by
  intro hlock
  rw [List.mem_append]
  cases steps_of_step hstep with
  | get k =>
    rcases hs hlock with ⟨t, ht, hkey, hmay⟩ | hlate
    · exact .inl ⟨t, List.mem_append_left _ ht, hkey, hmay⟩
    · exact .inr (.inl hlate)
  | @move _ i t next phase ha hi hmove =>
    have hothers : s.locks.get? key ≠ none → (t.key = key → t.phase.mayRemove = false) →
        (∃ u ∈ (next.setPhase i t.key phase).threads, u.key = key ∧ u.phase.mayRemove = true) ∨
          key ∈ late := by
      intro hbefore hnot
      rcases hs hbefore with ⟨u, hu, hkey, hmay⟩ | hlate
      · refine .inl ⟨u, mem_setPhase_of_ne hi hmove hu ?_, hkey, hmay⟩
        rintro rfl
        rw [hnot hkey] at hmay
        cases hmay
      · exact .inr hlate
    by_cases hkey : t.key = key
    · subst hkey
      rcases mayRemove_of_move hmove hlock with hmay | ⟨hnot, hbefore⟩ | ⟨lock, hp, hsome⟩
      · have hnow := (getElem?_setPhase hi hmove i).trans (if_pos rfl)
        exact .inl ⟨_, List.mem_of_getElem? hnow, rfl, hmay⟩
      · exact (hothers hbefore fun _ => hnot).imp_right .inl
      · exact .inr (.inr (lateFindAt_of_step hstep ha hi hp hsome))
    · have hbefore : s.locks.get? key ≠ none := by rwa [← (get?_of_move hmove (Ne.symm hkey)).2]
      exact (hothers hbefore fun h => absurd h hkey).imp_right .inl
  | invalidate k => exact (hs hlock).imp_right .inl
  | clear => exact (hs hlock).imp_right .inl

/-- Each key has one lock in the table at most. -/
theorem nodup_locks {entries : Assoc κ ν} {actions : List (Action κ ν ε)} {s : Threads κ ν ε}
    (hrun : (idle entries).run actions = some s) : (s.locks.map (·.1)).Nodup := by
  let OneEach : Threads κ ν ε → Prop := fun s => (s.locks.map (·.1)).Nodup
  have hmove : ∀ {s next : Threads κ ν ε} {key : κ} {p q : Phase ν ε}, OneEach s →
      Move key s p next q → OneEach next := by
    intro s next key p q hs h
    cases h with
    | create _ => exact Assoc.nodup_put hs _ _
    | remove => exact Assoc.nodup_erase hs _
    | _ => exact hs
  have hstep : ∀ {s : Threads κ ν ε} {a : Action κ ν ε} {s' : Threads κ ν ε}, OneEach s →
      s.Steps a s' → OneEach s' := by
    intro s a s' hs h
    cases h with
    | get k => exact hs
    | move _ _ h =>
      have hnext := hmove hs h
      exact hnext
    | invalidate k => exact hs
    | clear => exact hs
  have hidle : OneEach (idle entries) := List.nodup_nil
  exact run_invariant hstep hidle hrun

/-- **What is left in the table.** When no thread is on its way, the table has one lock at most for a key,
and only for keys that some thread found a value for with the lock in its hands. -/
theorem run_locks_left {entries : Assoc κ ν} {actions : List (Action κ ν ε)} {s : Threads κ ν ε}
    (hrun : (idle entries).run actions = some s) (hquiet : ∀ t ∈ s.threads, t.phase.isDone = true) :
    (s.locks.map (·.1)).Nodup ∧
      ∀ key ∈ s.locks.map (·.1), key ∈ (idle entries : Threads κ ν ε).lateFinds actions := by
  refine ⟨nodup_locks hrun, fun key hkey => ?_⟩
  let P : List (Action κ ν ε) → Threads κ ν ε → Prop := fun past s =>
    s.Accounted key ((idle entries).lateFinds past)
  have hfirst : P [] (idle entries) := fun hlock => absurd rfl hlock
  have hs : P actions s := by
    refine run_history hfirst ?_ (fun _ _ => trivial) hrun
    intro past a s s' _ hpast hs _ hstep
    simp only [P, lateFinds, seen_concat lateFindAt hpast]
    exact hs.step hstep
  obtain ⟨lock, hlock⟩ := (Assoc.exists_get?_iff s.locks key).mpr hkey
  rcases hs (by simp [hlock]) with ⟨t, ht, -, hmay⟩ | hlate
  · rw [Phase.mayRemove_of_isDone (hquiet t ht)] at hmay
    cases hmay
  · exact hlate

/-- Two threads miss a key, and the second one asks for the lock of the key when the first one is done. -/
def lateRequest : List (Action String Nat Unit) :=
  [.get "ACME", .get "ACME", .advance 0, .advance 1,
    .advance 0, .advance 0, .advance 0, .advance 0, .arrive 0 (.ok 7), .advance 0, .advance 0, .advance 0,
    .advance 1, .advance 1, .advance 1, .advance 1]

/-- The key of the lock that the second thread leaves behind. -/
theorem run_locks_left_lateRequest :
    ∃ s, (idle []).run lateRequest = some s ∧ (∀ t ∈ s.threads, t.phase.isDone = true) ∧
      s.locks.map (·.1) = ["ACME"] ∧ (s.locks.map (·.1)).Nodup ∧
      ∀ key ∈ s.locks.map (·.1), key ∈ (idle []).lateFinds lateRequest := by
  obtain ⟨s, hrun, hquiet, hlocks⟩ : ∃ s, (idle []).run lateRequest = some s ∧
      (∀ t ∈ s.threads, t.phase.isDone = true) ∧ s.locks.map (·.1) = ["ACME"] :=
    ⟨_, rfl, List.all_eq_true.mp rfl, rfl⟩
  exact ⟨s, hrun, hquiet, hlocks, run_locks_left hrun hquiet⟩

/-- When all threads are done, the table may hold a lock: here no fetch fails and nothing is removed, two
threads ask for a key, both get the value of the one fetch, and the lock of the second one stays. -/
theorem run_lockLeft :
    ∃ s, (idle []).run lateRequest = some s ∧ (∀ t ∈ s.threads, t.phase.isDone = true) ∧
      s.threads.length = 2 ∧ s.fetches = ["ACME"] ∧ s.locks = [("ACME", 1)] :=
  ⟨_, rfl, List.all_eq_true.mp rfl, rfl, rfl, rfl⟩

end Threads

end Backtest.Cache
