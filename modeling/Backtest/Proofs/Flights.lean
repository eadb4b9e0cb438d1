import Mathlib.Data.List.Perm.Subperm
import Backtest.Proofs.Moves

/-!
# Fetches in flight

Threads that miss a key wait for the lock of the key, so that one of them fetches and the others find
what it stored. But a thread takes the lock out of the table behind its fetch, also behind one that
failed and stored nothing. Those that still wait for this lock fetch under it, one after the other; a
thread that comes later finds no lock in the table, creates one, and fetches at the same time
(`run_twoFlights`).

Each failure can set free one lock like this, and no more: `run_flights` says that the fetches of a key
that are in flight, and the values that were stored under it, are together at most one more than its
fetches that failed. So a key that no fetch failed for is fetched by one thread at a time, and stored once.

The invariant is `Flights`. While the key has no value, a lock that threads use is in the table or is one
of its orphans, and there is one orphan for each thread that took a lock out of the table behind a
failure; a lock admits one thread to its fetch (`LocksApart`). Once the key has a value, no thread is
admitted any more.
-/

namespace Backtest.Cache

variable {κ ν ε : Type}

/-! ## Phases -/

namespace Phase

/-- The lock that a thread has taken from the table and not given back. -/
def lock? : Phase ν ε → Option Nat
  | .waiting lock | .holding lock | .missedAgain lock | .fetching lock _ => some lock
  | .fetched lock _ | .stored lock _ | .leaving lock _ => some lock
  | .started | .missed | .done _ => none

/-- The lock that a thread holds. -/
def held? : Phase ν ε → Option Nat
  | .waiting _ => none
  | p => p.lock?

/-- A fetch has begun and not yet ended. -/
def isFetching : Phase ν ε → Bool
  | .fetching .. => true
  | _ => false

/-- A value may still be stored: the fetch is to come, or in flight, or has brought a value. -/
def mayStore : Phase ν ε → Bool
  | .missedAgain _ | .fetching .. | .fetched _ (.ok _) => true
  | _ => false

/-- The value that the thread fetched is stored, and its lock is still in the table. -/
def hasStored : Phase ν ε → Bool
  | .stored _ (.ok _) => true
  | _ => false

/-- The fetch of the thread has failed. -/
def hasFailed : Phase ν ε → Bool
  | .fetched _ (.error _) | .stored _ (.error _) | .leaving _ (.error _) | .done (.error _) => true
  | _ => false

/-- The fetch of the thread has failed, and the thread took the lock of its key out of the table. -/
def hasGivenUp : Phase ν ε → Bool
  | .leaving _ (.error _) | .done (.error _) => true
  | _ => false

theorem hasFailed_of_hasGivenUp {p : Phase ν ε} (h : p.hasGivenUp = true) : p.hasFailed = true := by
  cases p with
  | leaving _ answer | done answer =>
    cases answer
    · rfl
    · cases h
  | _ => cases h

theorem held?_of_mayStore {p : Phase ν ε} (h : p.mayStore = true) : ∃ lock, p.held? = some lock := by
  cases p with
  | missedAgain lock | fetching lock _ | fetched lock _ => exact ⟨lock, rfl⟩
  | _ => cases h

theorem lock?_of_held? {p : Phase ν ε} {lock : Nat} (h : p.held? = some lock) : p.lock? = some lock := by
  cases p with
  | waiting _ => cases h
  | _ => exact h

end Phase

variable [DecidableEq κ]

namespace Threads

/-- The fetches of a key that have begun and not yet ended. -/
def inFlight (s : Threads κ ν ε) (key : κ) : Nat := s.count key Phase.isFetching

/-- The fetches of a key that have failed. -/
def failures (s : Threads κ ν ε) (key : κ) : Nat := s.count key Phase.hasFailed

/-! ## Locks -/

/-- The thread of this index holds a lock. -/
def HeldBy (s : Threads κ ν ε) (lock i : Nat) : Prop :=
  ∃ t, s.threads[i]? = some t ∧ t.phase.held? = some lock

/-- A lock is held by one thread at most, and is among the locks that are held then. -/
structure LocksApart (s : Threads κ ν ε) : Prop where
  held : ∀ lock i, s.HeldBy lock i → lock ∈ s.held
  apart : ∀ lock i j, s.HeldBy lock i → s.HeldBy lock j → i = j

section

variable {s next : Threads κ ν ε} {key : κ} {p phase : Phase ν ε} {i : Nat} {t : Thread κ ν ε}

/-- A move takes a lock that no thread holds, or gives back the lock of the thread, or neither. -/
theorem held_of_move (h : Move key s p next phase) :
    (phase.held? = p.held? ∧ next.held = s.held) ∨
    (∃ lock, phase.held? = some lock ∧ lock ∉ s.held ∧ next.held = lock :: s.held) ∨
    (∃ lock, p.held? = some lock ∧ phase.held? = none ∧ next.held = s.held.erase lock) := by
  cases h with
  | @acquire lock hfree => exact .inr (.inl ⟨lock, rfl, hfree, rfl⟩)
  | @release lock => exact .inr (.inr ⟨lock, rfl, rfl, rfl⟩)
  | _ => exact .inl ⟨rfl, rfl⟩

theorem heldBy_setPhase (hi : s.threads[i]? = some t) (h : Move t.key s t.phase next phase)
    (lock j : Nat) :
    (next.setPhase i t.key phase).HeldBy lock j ↔
      if i = j then phase.held? = some lock else s.HeldBy lock j := by
  rw [HeldBy, getElem?_setPhase hi h]
  split_ifs <;> simp [HeldBy]

theorem LocksApart.move (hs : s.LocksApart) (hi : s.threads[i]? = some t)
    (h : Move t.key s t.phase next phase) : (next.setPhase i t.key phase).LocksApart := by
  rcases held_of_move h with ⟨hq, hheld⟩ | ⟨taken, hq, hfree, hheld⟩ | ⟨given, hp, hq, hheld⟩
  · have hbefore : ∀ lock j, (next.setPhase i t.key phase).HeldBy lock j → s.HeldBy lock j := by
      intro lock j hj
      rw [heldBy_setPhase hi h] at hj
      split_ifs at hj with hij
      · exact ⟨t, hij ▸ hi, hq.symm.trans hj⟩
      · exact hj
    exact ⟨fun lock j hj => (congrArg (lock ∈ ·) hheld).mpr (hs.held lock j (hbefore lock j hj)),
      fun lock j k hj hk => hs.apart lock j k (hbefore lock j hj) (hbefore lock k hk)⟩
  · -- no other thread holds the lock that is taken
    have hnew : ∀ j, s.HeldBy taken j → False := fun j hj => hfree (hs.held taken j hj)
    constructor
    · intro lock j hj
      show lock ∈ next.held
      rw [heldBy_setPhase hi h, hq] at hj
      rw [hheld, List.mem_cons]
      split_ifs at hj
      · exact .inl (Option.some.inj hj).symm
      · exact .inr (hs.held lock j hj)
    · intro lock j k hj hk
      rw [heldBy_setPhase hi h, hq] at hj hk
      split_ifs at hj hk with hij hik hik
      · exact hij.symm.trans hik
      · exact (hnew k (Option.some.inj hj ▸ hk)).elim
      · exact (hnew j (Option.some.inj hk ▸ hj)).elim
      · exact hs.apart lock j k hj hk
  · -- the thread that gives back its lock holds none, and the others hold other ones
    have hothers : ∀ lock j, (next.setPhase i t.key phase).HeldBy lock j →
        s.HeldBy lock j ∧ lock ≠ given := by
      intro lock j hj
      rw [heldBy_setPhase hi h, hq] at hj
      split_ifs at hj with hij
      refine ⟨hj, ?_⟩
      rintro rfl
      exact hij (hs.apart lock i j ⟨t, hi, hp⟩ hj)
    refine ⟨fun lock j hj => ?_, fun lock j k hj hk => hs.apart lock j k (hothers lock j hj).1
      (hothers lock k hk).1⟩
    obtain ⟨hold, hne⟩ := hothers lock j hj
    show lock ∈ next.held
    rw [hheld]
    exact (List.mem_erase_of_ne hne).mpr (hs.held lock j hold)

end

/-- A lock is held by one thread at most, in every state that the threads of a cache can reach. -/
theorem LocksApart.step {s s' : Threads κ ν ε} {a : Action κ ν ε} (hs : s.LocksApart)
    (h : s.Steps a s') : s'.LocksApart := by
  cases h with
  | get key =>
    -- the thread that begins holds nothing
    have hbefore : ∀ lock i, HeldBy { s with threads := s.threads ++ [⟨key, .started⟩] } lock i →
        s.HeldBy lock i := by
      rintro lock i ⟨t, ht, hlock⟩
      rcases getElem?_get ht with hold | rfl
      · exact ⟨t, hold, hlock⟩
      · cases hlock
    exact ⟨fun lock i hi => hs.held lock i (hbefore lock i hi),
      fun lock i j hi hj => hs.apart lock i j (hbefore lock i hi) (hbefore lock j hj)⟩
  | move ha hi hmove => exact hs.move hi hmove
  | invalidate key => exact ⟨hs.held, hs.apart⟩
  | clear => exact ⟨hs.held, hs.apart⟩

/-! ## Orphaned locks -/

/-- Every lock that a thread took for a key and did not give back is one of these, or is in the table. -/
def Covers (s : Threads κ ν ε) (key : κ) (orphans : List Nat) : Prop :=
  ∀ t ∈ s.threads, t.key = key → ∀ lock, t.phase.lock? = some lock →
    lock ∈ orphans ∨ s.locks.get? key = some lock

section

variable {s next : Threads κ ν ε} {key : κ} {p q : Phase ν ε} {orphans : List Nat} {i : Nat}

/-- A lock that a thread takes is the one in the table then. -/
theorem lock?_of_move (h : Move key s p next q) {lock : Nat} (hq : q.lock? = some lock) :
    p.lock? = some lock ∨ next.locks.get? key = some lock := by
  cases h with
  | join hlock => exact .inr (hq ▸ hlock)
  | create _ => exact .inr (by rw [Assoc.get?_put, if_pos rfl, ← hq]; rfl)
  | miss _ | hit _ | release => cases hq
  | _ => exact .inl hq

/-- The lock of a key stays in the table until a thread takes it out behind its fetch. -/
theorem table_of_move (h : Move key s p next q) {lock : Nat} (hlock : s.locks.get? key = some lock) :
    next.locks.get? key = some lock ∨
      ∃ own answer, p = .stored own answer ∧ q = .leaving own answer := by
  cases h with
  | create hnone =>
    rw [hnone] at hlock
    cases hlock
  | remove => exact .inr ⟨_, _, rfl, rfl⟩
  | _ => exact .inl hlock

theorem Covers.move {t : Thread κ ν ε} (hs : s.Covers t.key orphans) (hi : s.threads[i]? = some t)
    (h : Move t.key s t.phase next q) :
    ∃ orphans', (next.setPhase i t.key q).Covers t.key orphans' ∧ (orphans' = orphans ∨
      orphans'.length ≤ orphans.length + 1 ∧
        ∃ own answer, t.phase = .stored own answer ∧ q = .leaving own answer) := by
  -- the locks in use behind the move are covered, whatever covers those in front of it
  have hcover : ∀ orphans', (∀ lock ∈ orphans, lock ∈ orphans') →
      (∀ lock, s.locks.get? t.key = some lock → lock ∈ orphans' ∨ next.locks.get? t.key = some lock) →
      (next.setPhase i t.key q).Covers t.key orphans' := by
    intro orphans' hsub htable u hu hkey lock hlock
    have hbefore : ∀ v ∈ s.threads, v.key = t.key → v.phase.lock? = some lock →
        lock ∈ orphans' ∨ next.locks.get? t.key = some lock := by
      intro v hv hvkey hvlock
      rcases hs v hv hvkey lock hvlock with hmem | hmem
      · exact .inl (hsub lock hmem)
      · exact htable lock hmem
    rcases mem_setPhase h hu with hold | rfl
    · exact hbefore u hold hkey hlock
    · rcases lock?_of_move h hlock with hp | htaken
      · exact hbefore t (List.mem_of_getElem? hi) rfl hp
      · exact .inr htaken
  by_cases hremove : ∃ own answer, t.phase = .stored own answer ∧ q = .leaving own answer
  · cases hlock : s.locks.get? t.key with
    | none => exact ⟨orphans, hcover orphans (fun _ => id) (by simp [hlock]), .inl rfl⟩
    | some lock =>
      refine ⟨lock :: orphans, hcover _ (fun _ => List.mem_cons_of_mem _) ?_, .inr ⟨by simp, hremove⟩⟩
      intro l hl
      rw [hlock, Option.some.injEq] at hl
      exact .inl (hl ▸ List.mem_cons_self)
  · refine ⟨orphans, hcover orphans (fun _ => id) (fun lock hlock => .inr ?_), .inl rfl⟩
    exact (table_of_move h hlock).resolve_right hremove

end

/-- Threads on their way to store a value hold different locks, of which all but one are orphans. -/
theorem count_mayStore_le {s : Threads κ ν ε} {key : κ} {orphans : List Nat} (hs : s.LocksApart)
    (hcover : s.Covers key orphans) : s.count key Phase.mayStore ≤ orphans.length + 1 := by
  let lockOf : Thread κ ν ε → Option Nat := fun t =>
    if t.key = key && t.phase.mayStore then t.phase.held? else none
  have hlockOf : ∀ {t : Thread κ ν ε} {lock : Nat}, lockOf t = some lock →
      t.key = key ∧ t.phase.held? = some lock := by
    intro t lock h
    simp only [lockOf, Bool.and_eq_true, decide_eq_true_eq] at h
    split_ifs at h with hif
    exact ⟨hif.1, h⟩
  have hcount : s.count key Phase.mayStore = (s.threads.filterMap lockOf).length := by
    rw [count, List.length_filterMap_eq_countP]
    apply List.countP_congr
    intro t _
    simp only [lockOf]
    split_ifs with hif
    · obtain ⟨lock, hlock⟩ := Phase.held?_of_mayStore (Bool.and_eq_true_iff.mp hif).2
      simp [hif, hlock]
    · simpa using hif
  have hnodup : (s.threads.filterMap lockOf).Nodup := by
    rw [List.Nodup, List.pairwise_filterMap, List.pairwise_iff_getElem]
    rintro i j hi hj hij a ha b hb rfl
    exact Nat.ne_of_lt hij (hs.apart a i j ⟨_, List.getElem?_eq_getElem hi, (hlockOf ha).2⟩
      ⟨_, List.getElem?_eq_getElem hj, (hlockOf hb).2⟩)
  have hsub : s.threads.filterMap lockOf ⊆ orphans ++ (s.locks.get? key).toList := by
    intro lock hlock
    obtain ⟨t, ht, hlock⟩ := List.mem_filterMap.mp hlock
    obtain ⟨hkey, hheld⟩ := hlockOf hlock
    rw [List.mem_append, Option.mem_toList]
    exact hcover t ht hkey lock (Phase.lock?_of_held? hheld)
  have hle := (hnodup.subperm hsub).length_le
  have hone : (s.locks.get? key).toList.length ≤ 1 := by cases s.locks.get? key <;> simp
  rw [List.length_append] at hle
  omega

theorem count_mono {s : Threads κ ν ε} {key : κ} {p q : Phase ν ε → Bool}
    (h : ∀ phase, p phase = true → q phase = true) : s.count key p ≤ s.count key q := by
  apply List.countP_mono_left
  intro t _ ht
  simp only [Bool.and_eq_true] at ht ⊢
  exact ⟨ht.1, h _ ht.2⟩

/-! ## The fetches of a key -/

/-- What is known of the fetches of a key when `n` values were stored under it. -/
structure Flights (key : κ) (n : Nat) (s : Threads κ ν ε) : Prop where
  apart : s.LocksApart
  /-- What a thread stored is there. -/
  stored : ∀ t ∈ s.threads, t.key = key → t.phase.hasStored = true → s.entries.get? key ≠ none
  /-- While there is no value, nothing was stored, and each orphan comes from a failure. -/
  vacant : s.entries.get? key = none → n = 0 ∧
    ∃ orphans, s.Covers key orphans ∧ orphans.length ≤ s.count key Phase.hasGivenUp
  /-- Once there is a value, no thread sets out to fetch. -/
  present : s.entries.get? key ≠ none →
    s.count key Phase.mayStore + n ≤ 1 + s.count key Phase.hasFailed

theorem Flights.bound {key : κ} {n : Nat} {s : Threads κ ν ε} (h : Flights key n s) :
    s.count key Phase.mayStore + n ≤ 1 + s.count key Phase.hasFailed := by
  by_cases hnone : s.entries.get? key = none
  · obtain ⟨rfl, orphans, hcover, hlen⟩ := h.vacant hnone
    have hmay := count_mayStore_le h.apart hcover
    have hfail : s.count key Phase.hasGivenUp ≤ s.count key Phase.hasFailed :=
      count_mono fun _ => Phase.hasFailed_of_hasGivenUp
    omega
  · exact h.present hnone

section

variable {s next : Threads κ ν ε} {key : κ} {p q : Phase ν ε}

/-- Only a thread that finds no value sets out to fetch. Of the others, one that stores a value, or whose
fetch fails, is no longer on its way. -/
theorem account_of_move (h : Move key s p next q) :
    (s.entries.get? key = none ∧ next.entries = s.entries) ∨
      q.mayStore.toNat + p.isStoring.toNat + p.hasFailed.toNat ≤
        p.mayStore.toNat + q.hasFailed.toNat := by
  cases h with
  | missAgain hnone => exact .inl ⟨hnone, rfl⟩
  | @remove lock answer | @release lock answer =>
    cases answer <;> simp [Phase.mayStore, Phase.isStoring, Phase.hasFailed]
  | _ => simp [Phase.mayStore, Phase.isStoring, Phase.hasFailed]

theorem givenUp_of_move (h : Move key s p next q) : p.hasGivenUp.toNat ≤ q.hasGivenUp.toNat := by
  cases h with
  | @remove lock answer | @release lock answer => cases answer <;> simp [Phase.hasGivenUp]
  | _ => simp [Phase.hasGivenUp]

/-- The value of a key changes only when a thread stores what it fetched. -/
theorem entry_of_move (h : Move key s p next q) :
    (p.isStoring = false ∧ q.hasStored = false ∧ next.entries.get? key = s.entries.get? key) ∨
      (p.isStoring = true ∧ next.entries.get? key ≠ none) := by
  cases h with
  | store => exact .inr ⟨rfl, by simp [Assoc.get?_put]⟩
  | _ => exact .inl ⟨rfl, rfl, rfl⟩

end

section

variable {s next : Threads κ ν ε} {key : κ} {n i : Nat} {t : Thread κ ν ε} {phase : Phase ν ε}

theorem Flights.move_of_ne (hs : Flights key n s) (hi : s.threads[i]? = some t)
    (h : Move t.key s t.phase next phase) (hkey : t.key ≠ key) :
    Flights key n (next.setPhase i t.key phase) := by
  obtain ⟨hentries, hlocks⟩ := get?_of_move h hkey.symm
  have hmem : ∀ u ∈ (next.setPhase i t.key phase).threads, u.key = key → u ∈ s.threads := by
    intro u hu hukey
    rcases mem_setPhase h hu with hold | rfl
    · exact hold
    · exact absurd hukey hkey
  refine ⟨hs.apart.move hi h, fun u hu hukey hstored => ?_, fun hnone => ?_, fun hsome => ?_⟩
  · exact hentries ▸ hs.stored u (hmem u hu hukey) hukey hstored
  · obtain ⟨hn, orphans, hcover, hlen⟩ := hs.vacant (hentries ▸ hnone)
    refine ⟨hn, orphans, fun u hu hukey lock hlock => ?_, ?_⟩
    · exact hlocks ▸ hcover u (hmem u hu hukey) hukey lock hlock
    · rwa [count_setPhase_of_ne hi h hkey]
  · rw [count_setPhase_of_ne hi h hkey, count_setPhase_of_ne hi h hkey]
    exact hs.present (hentries ▸ hsome)

theorem Flights.move (hs : Flights t.key n s) (hi : s.threads[i]? = some t)
    (h : Move t.key s t.phase next phase) :
    Flights t.key (n + t.phase.isStoring.toNat) (next.setPhase i t.key phase) := by
  refine ⟨hs.apart.move hi h, fun u hu hukey hstored => ?_, fun hnone => ?_, fun hsome => ?_⟩
  · show next.entries.get? t.key ≠ none
    rcases entry_of_move h with ⟨_, hq, hentry⟩ | ⟨_, hsome⟩
    · rw [hentry]
      rcases mem_setPhase h hu with hold | rfl
      · exact hs.stored u hold hukey hstored
      · simp [hq] at hstored
    · exact hsome
  · rcases entry_of_move h with ⟨hp, _, hentry⟩ | ⟨_, hsome⟩
    · have hvacant : s.entries.get? t.key = none := hentry ▸ hnone
      obtain ⟨rfl, orphans, hcover, hlen⟩ := hs.vacant hvacant
      obtain ⟨orphans', hcover', hgrow⟩ := hcover.move hi h
      refine ⟨by simp [hp], orphans', hcover', ?_⟩
      have hcount := count_setPhase hi h Phase.hasGivenUp
      rcases hgrow with rfl | ⟨hlen', own, answer, hstored, rfl⟩
      · have hmono := givenUp_of_move h
        omega
      · -- the thread fetched nothing, since what it stored would be there
        cases answer with
        | ok x => exact absurd hvacant (hs.stored t (List.mem_of_getElem? hi) rfl (by rw [hstored]; rfl))
        | error e =>
          rw [hstored] at hcount
          simp only [Phase.hasGivenUp, Bool.toNat_true, Bool.toNat_false] at hcount
          omega
    · exact absurd hnone hsome
  · rcases account_of_move h with ⟨hnone, hentries⟩ | haccount
    · exact absurd (hentries ▸ hnone) hsome
    · have hbound := hs.bound
      have hmay := count_setPhase hi h Phase.mayStore
      have hfailed := count_setPhase hi h Phase.hasFailed
      omega

end

theorem Flights.step {s s' : Threads κ ν ε} {key : κ} {n : Nat} {a : Action κ ν ε}
    (hs : Flights key n s) (ha : ¬ a.Removes key) (h : s.Steps a s') :
    Flights key (n + s.storesAt key a) s' := by
  have happart := hs.apart.step h
  cases h with
  | get k =>
    refine ⟨happart, fun t ht hkey hstored => ?_, fun hnone => ?_, fun hsome => ?_⟩
    · rcases mem_get ht with hold | rfl
      · exact hs.stored t hold hkey hstored
      · cases hstored
    · obtain ⟨rfl, orphans, hcover, hlen⟩ := hs.vacant hnone
      refine ⟨rfl, orphans, fun t ht hkey lock hlock => ?_, ?_⟩
      · rcases mem_get ht with hold | rfl
        · exact hcover t hold hkey lock hlock
        · cases hlock
      · rwa [count_get s key k rfl]
    · rw [count_get s key k rfl, count_get s key k rfl]
      exact hs.present hsome
  | @move _ i t next phase hthread hi hmove =>
    rw [storesAt, hthread, Option.bind_some, hi]
    by_cases hkey : t.key = key
    · subst hkey
      simpa using hs.move hi hmove
    · simpa [hkey] using hs.move_of_ne hi hmove hkey
  | invalidate k =>
    have hentry : (s.entries.erase k).get? key = s.entries.get? key := by
      rw [Assoc.get?_erase, if_neg fun h => ha h.symm]
    exact ⟨happart, fun t ht hkey hstored => hentry ▸ hs.stored t ht hkey hstored,
      fun hnone => hs.vacant (hentry ▸ hnone), fun hsome => hs.present (hentry ▸ hsome)⟩
  | clear => exact absurd trivial ha

theorem flights_idle (entries : Assoc κ ν) (key : κ) :
    Flights key 0 (idle entries : Threads κ ν ε) := by
  refine ⟨⟨?_, ?_⟩, by simp [idle], fun _ => ⟨rfl, [], by simp [Covers, idle], by simp⟩, fun _ => ?_⟩
  · rintro lock i ⟨t, ht, -⟩
    simp [idle] at ht
  · rintro lock i j ⟨t, ht, -⟩
    simp [idle] at ht
  · simp [count, idle]

/-! ## Main statements -/

/-- **Each failure admits one more fetch.** As long as nothing is removed under a key, two fetches are
never in flight under one lock, and the fetches of the key that are in flight, and the values that were
stored under it, are together at most one more than its fetches that failed. -/
theorem run_flights {entries : Assoc κ ν} {actions : List (Action κ ν ε)} {s : Threads κ ν ε} {key : κ}
    (hkeep : ∀ a ∈ actions, ¬ a.Removes key) (hrun : (idle entries).run actions = some s) :
    (∀ (i j lock f g : Nat) (k l : κ), s.threads[i]? = some ⟨k, .fetching lock f⟩ →
      s.threads[j]? = some ⟨l, .fetching lock g⟩ → i = j) ∧
    s.inFlight key + (idle entries : Threads κ ν ε).stores key actions ≤ 1 + s.failures key := by
  have hs : Flights key (0 + (idle entries).stores key actions) s :=
    run_induction (fun h ha hstep => h.step ha hstep) hkeep (flights_idle entries key) hrun
  refine ⟨fun i j lock f g k l hi hj => ?_, ?_⟩
  · exact hs.apart.apart lock i j ⟨_, hi, rfl⟩ ⟨_, hj, rfl⟩
  · have hflying : s.inFlight key ≤ s.count key Phase.mayStore := by
      apply count_mono
      intro p hp
      cases p with
      | fetching _ _ => rfl
      | _ => cases hp
    have hbound := hs.bound
    rw [failures]
    omega

/-- The first of two threads that want a key fails to fetch it. The second one fetches under the lock that
it has waited for, while a third one, which came later, fetches under a new lock. -/
def failureBetween : List (Action String Nat Unit) :=
  [.get "ACME", .get "ACME", .advance 0, .advance 0, .advance 0, .advance 0, .advance 0,
    .advance 1, .advance 1, .arrive 0 (.error ()), .advance 0, .advance 0, .advance 0,
    .advance 1, .advance 1, .advance 1,
    .get "ACME", .advance 2, .advance 2, .advance 2, .advance 2, .advance 2]

/-- Both fetches succeed and are stored. -/
def bothArrive : List (Action String Nat Unit) :=
  [.arrive 1 (.ok 7), .advance 1, .arrive 2 (.ok 8), .advance 2]

/-- A key of which one fetch failed has two fetches in flight. -/
theorem run_flights_failureBetween :
    ∃ s, (∀ a ∈ failureBetween, ¬ a.Removes "ACME") ∧ (idle []).run failureBetween = some s ∧
      s.inFlight "ACME" = 2 ∧ s.failures "ACME" = 1 ∧
      s.inFlight "ACME" + (idle []).stores "ACME" failureBetween ≤ 1 + s.failures "ACME" := by
  have hkeep : ∀ a ∈ failureBetween, ¬ a.Removes "ACME" := by
    simp [failureBetween, Action.Removes]
  obtain ⟨s, hrun, hflying, hfailed⟩ : ∃ s, (idle []).run failureBetween = some s ∧
      s.inFlight "ACME" = 2 ∧ s.failures "ACME" = 1 := ⟨_, rfl, rfl, rfl⟩
  exact ⟨s, hkeep, hrun, hflying, hfailed, (run_flights hkeep hrun).2⟩

/-- A lock for each key does not let one fetch of the key begin at a time: in this run nothing is removed,
and yet two fetches of one key are in flight together, and then both store what they bring. -/
theorem run_twoFlights :
    ∃ s t, (∀ a ∈ failureBetween ++ bothArrive, ∀ key, ¬ a.Removes key) ∧
      (idle []).run failureBetween = some s ∧ s.inFlight "ACME" = 2 ∧
      s.run bothArrive = some t ∧ (idle []).stores "ACME" (failureBetween ++ bothArrive) = 2 := by
  refine ⟨_, _, ?_, rfl, rfl, rfl, rfl⟩
  simp [failureBetween, bothArrive, Action.Removes]

end Threads

end Backtest.Cache
