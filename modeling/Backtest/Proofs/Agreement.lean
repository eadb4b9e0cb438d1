import Backtest.Proofs.Flights
import Backtest.Proofs.Removals

/-!
# Threads that agree

When no fetch fails and nothing is removed, all threads that ask for a key get the same value:
`run_agreement` says that a key which a thread is done with was fetched once, and that every thread that is
done with it has the result of this fetch.

* `run_account`: of the fetches of a key, each is in flight, or has brought a value that is yet to be
  stored, or was stored, or failed. With `Flights.bound` there is one at most if none failed.
* `Agreed`: the value of the key, and what a thread has of it, is the result of a fetch of the key, and who
  has found a value has the one that is in the cache. A value that is stored takes the place of no other:
  as long as a thread may store one, the key has none (`vacant_of_storing`).
-/

namespace Backtest.Cache

variable {κ ν ε : Type}

/-- The fetch of a thread ends without a value. -/
def Action.Fails : Action κ ν ε → Prop
  | .arrive _ (.error _) => True
  | _ => False

namespace Phase

/-- A fetch is in flight, or has brought a value that is yet to be stored. -/
def isBringing (p : Phase ν ε) : Bool := p.bringing?.isSome

/-- The value that a thread found in the cache or stored there. -/
def found? : Phase ν ε → Option (Fetched ν)
  | .stored _ (.ok x) | .leaving _ (.ok x) | .done (.ok x) => some x
  | _ => none

theorem mayStore_of_isBringing {p : Phase ν ε} (h : p.isBringing = true) : p.mayStore = true := by
  cases p with
  | fetching _ _ => rfl
  | fetched _ answer =>
    cases answer with
    | ok x => rfl
    | error e => cases h
  | _ => cases h

theorem mayStore_of_isStoring {p : Phase ν ε} (h : p.isStoring = true) : p.mayStore = true := by
  cases p with
  | fetched _ answer =>
    cases answer with
    | ok x => rfl
    | error e => cases h
  | _ => cases h

end Phase

variable [DecidableEq κ]

namespace Threads

/-! ## The account of the fetches -/

section

variable {s next : Threads κ ν ε} {key : κ} {p q : Phase ν ε}

theorem account_fetches_of_move (h : Move key s p next q) :
    next.fetches.count key + p.isBringing.toNat + p.hasFailed.toNat =
      s.fetches.count key + q.isBringing.toNat + q.hasFailed.toNat + p.isStoring.toNat := by
  cases h with
  | begin => simp [Phase.isBringing, Phase.bringing?, Phase.hasFailed, Phase.isStoring]
  | @remove _ answer | @release _ answer =>
    cases answer <;> simp [Phase.isBringing, Phase.bringing?, Phase.hasFailed, Phase.isStoring]
  | _ => simp [Phase.isBringing, Phase.bringing?, Phase.hasFailed, Phase.isStoring]

theorem count_fetches_of_ne (h : Move key s p next q) {k : κ} (hk : key ≠ k) :
    next.fetches.count k = s.fetches.count k := by
  cases h with
  | begin => simp [List.count_append, hk]
  | _ => rfl

end

/-- **Where the fetches of a key are.** Each is in flight or has brought a value that is yet to be stored,
or its value was stored, or it failed. -/
theorem run_account {entries : Assoc κ ν} {actions : List (Action κ ν ε)} {s : Threads κ ν ε} (key : κ)
    (hrun : (idle entries).run actions = some s) :
    s.fetches.count key = s.count key Phase.isBringing +
      (idle entries : Threads κ ν ε).stores key actions + s.failures key := by
  let Account : Nat → Threads κ ν ε → Prop := fun n s =>
    s.fetches.count key = s.count key Phase.isBringing + n + s.failures key
  have hstep : ∀ {n : Nat} {s : Threads κ ν ε} {a : Action κ ν ε} {s' : Threads κ ν ε}, Account n s → True →
      s.Steps a s' → Account (n + s.storesAt key a) s' := by
    intro n s a s' hs _ h
    simp only [Account, failures] at hs ⊢
    cases h with
    | get k => rwa [count_get s key k rfl, count_get s key k rfl]
    | @move _ i t next phase hthread hi hmove =>
      rw [storesAt, hthread, Option.bind_some, hi]
      by_cases hkey : t.key = key
      · subst hkey
        have hbringing := count_setPhase hi hmove Phase.isBringing
        have hfailed := count_setPhase hi hmove Phase.hasFailed
        have haccount := account_fetches_of_move hmove
        simp only [decide_true, Bool.true_and, setPhase] at hbringing hfailed haccount ⊢
        omega
      · rw [count_setPhase_of_ne hi hmove hkey, count_setPhase_of_ne hi hmove hkey]
        simpa [hkey, setPhase, count_fetches_of_ne hmove hkey] using hs
    | invalidate k => exact hs
    | clear => exact hs
  have hidle : Account 0 (idle entries) := by simp [Account, idle, count, failures]
  simpa [Account] using run_induction hstep (fun _ _ => trivial) hidle hrun

/-- A key that had no value at first has one only if one was stored. -/
theorem stores_pos {entries : Assoc κ ν} {actions : List (Action κ ν ε)} {s : Threads κ ν ε} {key : κ}
    (hvacant : (idle entries : Threads κ ν ε).entries.get? key = none)
    (hrun : (idle entries).run actions = some s) (hsome : s.entries.get? key ≠ none) :
    0 < (idle entries : Threads κ ν ε).stores key actions := by
  let Stored : Nat → Threads κ ν ε → Prop := fun n s => s.entries.get? key ≠ none → 0 < n
  have hstep : ∀ {n : Nat} {s : Threads κ ν ε} {a : Action κ ν ε} {s' : Threads κ ν ε}, Stored n s → True →
      s.Steps a s' → Stored (n + s.storesAt key a) s' := by
    intro n s a s' hs _ h hsome
    cases h with
    | get k => exact Nat.add_pos_left (hs hsome) _
    | @move _ i t next phase hthread hi hmove =>
      by_cases hkey : t.key = key
      · subst hkey
        rcases entry_of_move hmove with ⟨-, -, hentry⟩ | ⟨hstoring, -⟩
        · exact Nat.add_pos_left (hs (hentry ▸ hsome)) _
        · have hone : s.storesAt t.key a = 1 := by simp [storesAt, hthread, hi, hstoring]
          omega
      · exact Nat.add_pos_left (hs ((get?_of_move hmove (Ne.symm hkey)).1 ▸ hsome)) _
    | invalidate k =>
      refine Nat.add_pos_left (hs fun hnone => hsome ?_) _
      show (s.entries.erase k).get? key = none
      rw [Assoc.get?_erase, hnone, ite_self]
    | clear => exact absurd rfl hsome
  have hidle : Stored 0 (idle entries) := fun h => absurd hvacant h
  simpa using run_induction hstep (fun _ _ => trivial) hidle hrun hsome

/-! ## Results of fetches -/

/-- The result of a fetch that ends in an action, with the number of the fetch. -/
def resultAt (s : Threads κ ν ε) : Action κ ν ε → List (Nat × Except ε ν)
  | .arrive thread result =>
    match s.threads[thread]? with
    | some ⟨_, .fetching _ fetch⟩ => [(fetch, result)]
    | _ => []
  | _ => []

/-- The results of the fetches that end in a run, with their numbers. -/
def results (s : Threads κ ν ε) (actions : List (Action κ ν ε)) : List (Nat × Except ε ν) :=
  s.seen resultAt actions

/-- Only the end of its fetch moves a thread that is fetching. -/
theorem arrive_of_step {s s' : Threads κ ν ε} {a : Action κ ν ε} {i lock fetch : Nat} {key : κ}
    {answer : Except ε (Fetched ν)} (h : s.step a = some s') (ha : a.thread? = some i)
    (hi : s.threads[i]? = some ⟨key, .fetching lock fetch⟩)
    (hi' : s'.threads[i]? = some ⟨key, .fetched lock answer⟩) :
    ∃ result, a = .arrive i result ∧ answer = result.map fun v => ⟨some fetch, v⟩ := by
  cases a with
  | advance j =>
    obtain rfl := Option.some.inj ha
    rw [step, hi] at h
    cases h
  | arrive j result =>
    obtain rfl := Option.some.inj ha
    rw [step, hi] at h
    obtain rfl := Option.some.inj h
    have hlt : j < s.threads.length := (List.getElem?_eq_some_iff.mp hi).1
    rw [setPhase, List.getElem?_set_self hlt] at hi'
    cases hi'
    exact ⟨result, rfl, rfl⟩
  | get _ | invalidate _ | clear => cases ha

section

variable {s next s' : Threads κ ν ε} {key : κ} {p q : Phase ν ε} {a : Action κ ν ε} {i : Nat}
  {t : Thread κ ν ε}

/-- A thread has failed before, or its fetch ends without a value. -/
theorem failed_of_move (h : Move key s p next q) (hq : q.hasFailed = true) :
    p.hasFailed = true ∨ ∃ lock fetch e, p = .fetching lock fetch ∧ q = .fetched lock (.error e) := by
  cases h with
  | fail e => exact .inr ⟨_, _, e, rfl, rfl⟩
  | skip => exact .inl rfl
  | @remove _ answer | @release _ answer =>
    cases answer with
    | ok x => cases hq
    | error e => exact .inl rfl
  | _ => cases hq

/-- What a thread gets it had before, or finds, or its fetch ends with it. -/
theorem result_of_move (h : Move key s p next q) {x : Fetched ν} (hq : q.value? = some x) :
    p.value? = some x ∨ s.entries.get? key = some x ∨
      ∃ lock fetch v, p = .fetching lock fetch ∧ q = .fetched lock (.ok ⟨some fetch, v⟩) ∧
        x = ⟨some fetch, v⟩ := by
  cases h with
  | succeed v => exact .inr (.inr ⟨_, _, v, rfl, rfl, (Option.some.inj hq).symm⟩)
  | hit hx | hitAgain hx => exact .inr (.inl (hq ▸ hx))
  | store => exact .inl hq
  | @remove _ answer | @release _ answer =>
    cases answer with
    | ok y => exact .inl hq
    | error e => cases hq
  | _ => cases hq

/-- A value in the cache was there, or the thread had it and stores it. -/
theorem stored_of_move (h : Move key s p next q) {x : Fetched ν} (hx : next.entries.get? key = some x) :
    s.entries.get? key = some x ∨ p.value? = some x := by
  cases h with
  | store =>
    rw [Assoc.get?_put, if_pos rfl] at hx
    exact .inr hx
  | _ => exact .inl hx

/-- What a thread has found it had found before, or it is in the cache now. -/
theorem found_of_move (h : Move key s p next q) {x : Fetched ν} (hq : q.found? = some x) :
    p.found? = some x ∨ next.entries.get? key = some x := by
  cases h with
  | hit hx | hitAgain hx => exact .inr (hq ▸ hx)
  | store => exact .inr (by rw [Assoc.get?_put, if_pos rfl]; exact hq)
  | @remove _ answer | @release _ answer =>
    cases answer with
    | ok y => exact .inl hq
    | error e => cases hq
  | _ => cases hq

/-- A fetch that began keeps its number. -/
theorem getElem?_fetches_of_move (h : Move key s p next q) {fetch : Nat} {k : κ}
    (hk : s.fetches[fetch]? = some k) : next.fetches[fetch]? = some k := by
  cases h with
  | begin => rw [List.getElem?_append_left (List.getElem?_eq_some_iff.mp hk).1, hk]
  | _ => exact hk

/-- A thread that is fetching was doing so before, or its fetch begins, and is of the key. -/
theorem fetching_of_move (h : Move key s p next q) {lock fetch : Nat} (hq : q = .fetching lock fetch) :
    p = .fetching lock fetch ∨ next.fetches[fetch]? = some key := by
  cases h with
  | begin =>
    cases hq
    exact .inr (by simp)
  | _ => cases hq

end

/-! ## The invariant -/

/-- A value is the result of a fetch of a key. -/
def Brought (s : Threads κ ν ε) (key : κ) (results : List (Nat × Except ε ν)) (x : Fetched ν) : Prop :=
  ∃ fetch, x.fetch = some fetch ∧ s.fetches[fetch]? = some key ∧ (fetch, .ok x.value) ∈ results

/-- All that there is of a key comes from its fetches, and all that was found of it is in the cache. -/
structure Agreed (key : κ) (results : List (Nat × Except ε ν)) (s : Threads κ ν ε) : Prop where
  fetching : ∀ t ∈ s.threads, t.key = key → ∀ lock fetch, t.phase = .fetching lock fetch →
    s.fetches[fetch]? = some key
  entry : ∀ x, s.entries.get? key = some x → s.Brought key results x
  value : ∀ t ∈ s.threads, t.key = key → ∀ x, t.phase.value? = some x → s.Brought key results x
  found : ∀ t ∈ s.threads, t.key = key → ∀ x, t.phase.found? = some x → s.entries.get? key = some x

omit [DecidableEq κ] in
theorem Brought.mono {s s' : Threads κ ν ε} {key : κ} {before after : List (Nat × Except ε ν)}
    {x : Fetched ν} (hx : s.Brought key before x)
    (hfetches : ∀ fetch : Nat, s.fetches[fetch]? = some key → s'.fetches[fetch]? = some key)
    (hresults : before ⊆ after) : s'.Brought key after x := by
  obtain ⟨fetch, hfetch, hkey, hmem⟩ := hx
  exact ⟨fetch, hfetch, hfetches fetch hkey, hresults hmem⟩

section

variable {s s' next : Threads κ ν ε} {key : κ} {before : List (Nat × Except ε ν)} {a : Action κ ν ε}

section

variable {i : Nat} {t : Thread κ ν ε} {phase : Phase ν ε}

theorem Agreed.fetching_move (hs : Agreed key before s) (ht : t ∈ s.threads)
    (h : Move t.key s t.phase next phase) {u : Thread κ ν ε} (hu : u ∈ (next.setPhase i t.key phase).threads)
    (hkey : u.key = key) {lock fetch : Nat} (hfetching : u.phase = .fetching lock fetch) :
    next.fetches[fetch]? = some key := by
  have hold : ∀ u ∈ s.threads, u.key = key → u.phase = .fetching lock fetch →
      next.fetches[fetch]? = some key := fun u hu hkey hfetching =>
    getElem?_fetches_of_move h (hs.fetching u hu hkey lock fetch hfetching)
  rcases mem_setPhase h hu with hmem | rfl
  · exact hold u hmem hkey hfetching
  · rcases fetching_of_move h hfetching with hbefore | hbegins
    · exact hold t ht hkey hbefore
    · exact hkey ▸ hbegins

theorem Agreed.entry_move (hs : Agreed key before s) (ht : t ∈ s.threads)
    (h : Move t.key s t.phase next phase) {x : Fetched ν} (hx : next.entries.get? key = some x) :
    s.Brought key before x := by
  by_cases hkey : t.key = key
  · subst hkey
    rcases stored_of_move h hx with hold | hstored
    · exact hs.entry x hold
    · exact hs.value t ht rfl x hstored
  · exact hs.entry x ((get?_of_move h (Ne.symm hkey)).1 ▸ hx)

/-- A thread gets what another one brought before, or what its own fetch brings now. -/
theorem Agreed.value_move (hs : Agreed key before s) (hstep : s.step a = some (next.setPhase i t.key phase))
    (ha : a.thread? = some i) (hi : s.threads[i]? = some t) (h : Move t.key s t.phase next phase)
    {u : Thread κ ν ε} (hu : u ∈ (next.setPhase i t.key phase).threads) (hkey : u.key = key)
    {x : Fetched ν} (hx : u.phase.value? = some x) :
    (next.setPhase i t.key phase).Brought key (before ++ s.resultAt a) x := by
  have ht : t ∈ s.threads := List.mem_of_getElem? hi
  have hkept : s.Brought key before x →
      (next.setPhase i t.key phase).Brought key (before ++ s.resultAt a) x :=
    fun hx => hx.mono (fun _ hk => getElem?_fetches_of_move h hk) (List.subset_append_left _ _)
  rcases mem_setPhase h hu with hmem | rfl
  · exact hkept (hs.value u hmem hkey x hx)
  · subst hkey
    rcases result_of_move h hx with hbefore | hentry | ⟨lock, fetch, v, hp, rfl, rfl⟩
    · exact hkept (hs.value t ht rfl x hbefore)
    · exact hkept (hs.entry x hentry)
    · -- the fetch of the thread ends, and the action has its result
      have hnow : s.threads[i]? = some ⟨t.key, .fetching lock fetch⟩ := hi.trans (by rw [← hp])
      have hthen := (getElem?_setPhase hi h i).trans (if_pos rfl)
      obtain ⟨result, rfl, hanswer⟩ := arrive_of_step hstep ha hnow hthen
      refine ⟨fetch, rfl, getElem?_fetches_of_move h (hs.fetching t ht rfl lock fetch hp),
        List.mem_append_right _ ?_⟩
      cases result with
      | ok w =>
        cases hanswer
        simp [resultAt, hnow]
      | error e => cases hanswer

/-- What was found stays in the cache: a thread stores a value only while the key has none. -/
theorem Agreed.found_move (hs : Agreed key before s) (ht : t ∈ s.threads)
    (h : Move t.key s t.phase next phase)
    (hvacant : t.key = key → t.phase.isStoring = true → s.entries.get? key = none)
    {u : Thread κ ν ε} (hu : u ∈ (next.setPhase i t.key phase).threads) (hkey : u.key = key)
    {x : Fetched ν} (hx : u.phase.found? = some x) : next.entries.get? key = some x := by
  by_cases hkey' : t.key = key
  · subst hkey'
    have hold : ∀ u ∈ s.threads, u.key = t.key → u.phase.found? = some x →
        next.entries.get? t.key = some x := by
      intro u hu hkey hfound
      have hentry : s.entries.get? t.key = some x := hs.found u hu hkey x hfound
      rcases entry_of_move h with ⟨-, -, hsame⟩ | ⟨hstoring, -⟩
      · exact hsame.trans hentry
      · rw [hvacant rfl hstoring] at hentry
        cases hentry
    rcases mem_setPhase h hu with hmem | rfl
    · exact hold u hmem hkey hx
    · rcases found_of_move h hx with hbefore | hentry
      · exact hold t ht rfl hbefore
      · exact hentry
  · rcases mem_setPhase h hu with hmem | rfl
    · exact (get?_of_move h (Ne.symm hkey')).1.trans (hs.found u hmem hkey x hx)
    · exact absurd hkey hkey'

theorem Agreed.move (hs : Agreed key before s) (hstep : s.step a = some (next.setPhase i t.key phase))
    (ha : a.thread? = some i) (hi : s.threads[i]? = some t) (h : Move t.key s t.phase next phase)
    (hvacant : t.key = key → t.phase.isStoring = true → s.entries.get? key = none) :
    Agreed key (before ++ s.resultAt a) (next.setPhase i t.key phase) := by
  have ht : t ∈ s.threads := List.mem_of_getElem? hi
  exact {
    fetching := fun _ hu hkey _ _ hfetching => hs.fetching_move ht h hu hkey hfetching
    entry := fun _ hx => (hs.entry_move ht h hx).mono (fun _ hk => getElem?_fetches_of_move h hk)
      (List.subset_append_left _ _)
    value := fun _ hu hkey _ hx => hs.value_move hstep ha hi h hu hkey hx
    found := fun _ hu hkey _ hx => hs.found_move ht h hvacant hu hkey hx }

end

theorem Agreed.step (hs : Agreed key before s) (hstep : s.step a = some s') (ha : ¬ a.Removes key)
    (hvacant : ∀ t ∈ s.threads, t.key = key → t.phase.isStoring = true → s.entries.get? key = none) :
    Agreed key (before ++ s.resultAt a) s' := by
  cases steps_of_step hstep with
  | get k =>
    have hmem : ∀ u ∈ s.threads ++ [⟨k, .started⟩], u.phase ≠ .started → u ∈ s.threads := by
      intro u hu hne
      rcases mem_get hu with hold | rfl
      · exact hold
      · exact absurd rfl hne
    rw [show s.resultAt (.get k) = [] from rfl, List.append_nil]
    exact ⟨fun u hu hkey lock fetch h => hs.fetching u (hmem u hu (by simp [h])) hkey lock fetch h,
      hs.entry, fun u hu hkey x hx => hs.value u (hmem u hu (by rintro h; simp [h, Phase.value?] at hx)) hkey x hx,
      fun u hu hkey x hx => hs.found u (hmem u hu (by rintro h; simp [h, Phase.found?] at hx)) hkey x hx⟩
  | move hthread hi hmove =>
    exact hs.move hstep hthread hi hmove (hvacant _ (List.mem_of_getElem? hi))
  | invalidate k =>
    have hentry : (s.entries.erase k).get? key = s.entries.get? key := by
      rw [Assoc.get?_erase, if_neg fun h => ha h.symm]
    rw [show s.resultAt (.invalidate k) = [] from rfl, List.append_nil]
    exact ⟨hs.fetching, fun x hx => hs.entry x (hentry ▸ hx), hs.value,
      fun u hu hkey x hx => hentry.trans (hs.found u hu hkey x hx)⟩
  | clear => exact absurd trivial ha

end

/-! ## Runs in which nothing fails and nothing is removed -/

/-- Without an end of a fetch that fails, no thread has failed. -/
theorem failures_eq_zero {entries : Assoc κ ν} {actions : List (Action κ ν ε)} {s : Threads κ ν ε}
    (key : κ) (hok : ∀ a ∈ actions, ¬ a.Fails) (hrun : (idle entries).run actions = some s) :
    s.failures key = 0 := by
  have hnone : ∀ t ∈ s.threads, t.phase.hasFailed = false := by
    refine run_history (P := fun _ s => ∀ t ∈ s.threads, t.phase.hasFailed = false) (by simp [idle]) ?_
      hok hrun
    intro past a s s' _ _ hs ha hstep
    cases steps_of_step hstep with
    | get k =>
      intro u hu
      rcases mem_get hu with hold | rfl
      · exact hs u hold
      · rfl
    | @move _ i t next phase hthread hi hmove =>
      intro u hu
      rcases mem_setPhase hmove hu with hold | rfl
      · exact hs u hold
      · refine Bool.eq_false_iff.mpr fun hfailed => ?_
        rcases failed_of_move hmove hfailed with hbefore | ⟨lock, fetch, e, hp, rfl⟩
        · rw [hs t (List.mem_of_getElem? hi)] at hbefore
          cases hbefore
        · have hnow : s.threads[i]? = some ⟨t.key, .fetching lock fetch⟩ := hi.trans (by rw [← hp])
          have hthen := (getElem?_setPhase hi hmove i).trans (if_pos rfl)
          obtain ⟨result, rfl, hanswer⟩ := arrive_of_step hstep hthread hnow hthen
          cases result with
          | ok v => cases hanswer
          | error e => exact ha trivial
    | invalidate k => exact hs
    | clear => exact hs
  rw [failures, count, List.countP_eq_zero]
  intro t ht
  simp [hnone t ht]

section

variable {entries : Assoc κ ν} {actions : List (Action κ ν ε)} {s : Threads κ ν ε} {key : κ}

theorem flights_of_run (hkeep : ∀ a ∈ actions, ¬ a.Removes key)
    (hrun : (idle entries).run actions = some s) :
    Flights key ((idle entries : Threads κ ν ε).stores key actions) s := by
  simpa using run_induction (fun h ha hstep => h.step ha hstep) hkeep (flights_idle entries key) hrun

/-- While a thread is about to store a value, the key has none. -/
theorem vacant_of_storing (hvacant : (idle entries : Threads κ ν ε).entries.get? key = none)
    (hok : ∀ a ∈ actions, ¬ a.Fails ∧ ¬ a.Removes key) (hrun : (idle entries).run actions = some s)
    {t : Thread κ ν ε} (ht : t ∈ s.threads) (hkey : t.key = key) (hstoring : t.phase.isStoring = true) :
    s.entries.get? key = none := by
  by_contra hsome
  have hbound := (flights_of_run (fun a ha => (hok a ha).2) hrun).bound
  have hfailures : s.count key Phase.hasFailed = 0 :=
    failures_eq_zero key (fun a ha => (hok a ha).1) hrun
  have hstored := stores_pos hvacant hrun hsome
  have hmay : 0 < s.count key Phase.mayStore :=
    List.countP_pos_iff.mpr ⟨t, ht, by simp [hkey, Phase.mayStore_of_isStoring hstoring]⟩
  omega

theorem agreed_of_run (hvacant : (idle entries : Threads κ ν ε).entries.get? key = none)
    (hok : ∀ a ∈ actions, ¬ a.Fails ∧ ¬ a.Removes key) (hrun : (idle entries).run actions = some s) :
    Agreed key ((idle entries : Threads κ ν ε).results actions) s := by
  refine run_history (P := fun past s => Agreed key ((idle entries).results past) s) ?_ ?_ hok hrun
  · exact ⟨by simp [idle], fun x hx => by simp [hvacant] at hx, by simp [idle], by simp [idle]⟩
  · intro past a s s' hpast hrun hs ha hstep
    rw [results, seen_concat resultAt hrun]
    exact hs.step hstep ha.2 fun t ht hkey => vacant_of_storing hvacant hpast hrun ht hkey

/-- **One fetch for all.** In a run in which no fetch fails and nothing is removed under a key that had no
value at first: when a thread is done with the key, the key was fetched once, and this thread and every
other one that is done with the key has the result of this fetch. -/
theorem run_agreement {i : Nat} {answer : Except ε (Fetched ν)}
    (hvacant : (idle entries : Threads κ ν ε).entries.get? key = none)
    (hok : ∀ a ∈ actions, ¬ a.Fails ∧ ¬ a.Removes key) (hrun : (idle entries).run actions = some s)
    (hdone : s.threads[i]? = some ⟨key, .done answer⟩) :
    s.fetches.count key = 1 ∧ ∃ fetch v, s.fetches[fetch]? = some key ∧
      (fetch, .ok v) ∈ (idle entries : Threads κ ν ε).results actions ∧
      ∀ (j : Nat) (other : Except ε (Fetched ν)), s.threads[j]? = some ⟨key, .done other⟩ →
        other = .ok ⟨some fetch, v⟩ := by
  have hs := agreed_of_run hvacant hok hrun
  have hfailures := failures_eq_zero key (fun a ha => (hok a ha).1) hrun
  -- a thread that is done has found what is in the cache
  have hfound : ∀ (j : Nat) (other : Except ε (Fetched ν)), s.threads[j]? = some ⟨key, .done other⟩ →
      ∃ x, other = .ok x ∧ s.entries.get? key = some x := by
    intro j other hj
    have hmem := List.mem_of_getElem? hj
    cases other with
    | ok x => exact ⟨x, rfl, hs.found _ hmem rfl x rfl⟩
    | error e =>
      rw [failures, count, List.countP_eq_zero] at hfailures
      simpa [Phase.hasFailed] using hfailures _ hmem
  obtain ⟨⟨_, v⟩, -, hentry⟩ := hfound i answer hdone
  obtain ⟨fetch, rfl, hkey, hresult⟩ := hs.entry _ hentry
  refine ⟨?_, fetch, v, hkey, hresult, fun j other hj => ?_⟩
  · have haccount := run_account key hrun
    have hbound := (flights_of_run (fun a ha => (hok a ha).2) hrun).bound
    have hbringing : s.count key Phase.isBringing ≤ s.count key Phase.mayStore :=
      count_mono fun _ => Phase.mayStore_of_isBringing
    have hpos : 0 < s.fetches.count key := List.count_pos_iff.mpr (List.mem_of_getElem? hkey)
    rw [failures] at haccount hfailures
    omega
  · obtain ⟨x, rfl, hx⟩ := hfound j other hj
    rw [hentry, Option.some.injEq] at hx
    rw [← hx]

end

/-- Three threads miss a key. The first one fetches, the second one waits for it, and the third one asks for
the lock of the key only when the other two are done. -/
def threeRequests : List (Action String Nat Unit) :=
  [.get "ACME", .get "ACME", .get "ACME", .advance 0, .advance 1, .advance 2,
    .advance 0, .advance 1, .advance 0, .advance 0, .advance 0, .arrive 0 (.ok 7),
    .advance 0, .advance 0, .advance 0, .advance 1, .advance 1, .advance 1,
    .advance 2, .advance 2, .advance 2, .advance 2]

/-- The third thread has the result of the first one's fetch. -/
theorem run_agreement_threeRequests :
    ∃ s, (idle [] : Threads String Nat Unit).entries.get? "ACME" = none ∧
      (∀ a ∈ threeRequests, ¬ a.Fails ∧ ¬ a.Removes "ACME") ∧
      (idle []).run threeRequests = some s ∧
      s.threads[2]? = some ⟨"ACME", .done (.ok ⟨some 0, 7⟩)⟩ ∧
      s.fetches.count "ACME" = 1 ∧ ∃ fetch v, s.fetches[fetch]? = some "ACME" ∧
        (fetch, .ok v) ∈ (idle []).results threeRequests ∧
        ∀ (j : Nat) (other : Except Unit (Fetched Nat)), s.threads[j]? = some ⟨"ACME", .done other⟩ →
          other = .ok ⟨some fetch, v⟩ := by
  have hok : ∀ a ∈ threeRequests, ¬ a.Fails ∧ ¬ a.Removes "ACME" := by
    simp [threeRequests, Action.Fails, Action.Removes]
  obtain ⟨s, hrun, hdone⟩ : ∃ s, (idle []).run threeRequests = some s ∧
      s.threads[2]? = some ⟨"ACME", .done (.ok ⟨some 0, 7⟩)⟩ := ⟨_, rfl, rfl⟩
  exact ⟨s, rfl, hok, hrun, hdone, run_agreement rfl hok hrun hdone⟩

end Threads

end Backtest.Cache
