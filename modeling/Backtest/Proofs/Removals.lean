import Backtest.Proofs.Moves

/-!
# Removals and the fetches under way

A removal takes the value of a key out of the cache, but a fetch of the key that is under way goes on, and
what it brings is stored behind the removal. So a thread that asks for the key later may find a value that
is older than the removal (`run_staleRead`).

This is the only way to an old value: `run_after_removal` says that a thread which begins behind a removal
gets the value of a fetch that began behind it too, or that was under way then. The invariant (`OnlyRecent`)
follows such values to where a thread can get them from: the entry of the key, the threads that will store
one, and the threads themselves that began behind the removal.
-/

namespace Backtest.Cache

variable {κ ν ε : Type}

namespace Phase

/-- The number of the fetch whose value a thread is going to store, if it succeeds. -/
def bringing? : Phase ν ε → Option (Option Nat)
  | .fetching _ fetch => some (some fetch)
  | .fetched _ (.ok x) => some x.fetch
  | _ => none

/-- The value that a thread got. -/
def value? : Phase ν ε → Option (Fetched ν)
  | .fetched _ (.ok x) | .stored _ (.ok x) | .leaving _ (.ok x) | .done (.ok x) => some x
  | _ => none

end Phase

variable [DecidableEq κ]

namespace Threads

/-- A fetch of a key has begun and has neither failed nor been stored. -/
def UnderWay (s : Threads κ ν ε) (key : κ) (fetch : Nat) : Prop :=
  ∃ t ∈ s.threads, t.key = key ∧ t.phase.bringing? = some (some fetch)

/-- The values of a key that can be got come from fetches that are recent; only threads before `started`
may have other ones, and the fetches from `begun` on are yet to begin or have begun since. -/
structure OnlyRecent (recent : Option Nat → Prop) (key : κ) (begun started : Nat)
    (s : Threads κ ν ε) : Prop where
  begun : begun ≤ s.fetches.length
  entry : ∀ x, s.entries.get? key = some x → recent x.fetch
  bringing : ∀ t ∈ s.threads, t.key = key → ∀ fetch, t.phase.bringing? = some fetch → recent fetch
  answers : ∀ i t, started ≤ i → s.threads[i]? = some t → t.key = key →
    ∀ x, t.phase.value? = some x → recent x.fetch

section

variable {s next : Threads κ ν ε} {key : κ} {p q : Phase ν ε}

theorem fetches_of_move (h : Move key s p next q) : s.fetches.length ≤ next.fetches.length := by
  cases h <;> simp

/-- A value in the cache was there, or was brought by the thread. -/
theorem brought_of_move (h : Move key s p next q) {x : Fetched ν} (hx : next.entries.get? key = some x) :
    s.entries.get? key = some x ∨ p.bringing? = some x.fetch := by
  cases h with
  | store =>
    rw [Assoc.get?_put, if_pos rfl] at hx
    obtain rfl := Option.some.inj hx
    exact .inr rfl
  | _ => exact .inl hx

/-- What a thread brings it was bringing before, or its fetch begins. -/
theorem bringing_of_move (h : Move key s p next q) {fetch : Option Nat} (hq : q.bringing? = some fetch) :
    p.bringing? = some fetch ∨ fetch = some s.fetches.length := by
  cases h with
  | begin => exact .inr (Option.some.inj hq).symm
  | succeed v => exact .inl hq
  | _ => cases hq

/-- What a thread gets it had before, or finds, or has fetched. -/
theorem value_of_move (h : Move key s p next q) {x : Fetched ν} (hq : q.value? = some x) :
    p.value? = some x ∨ s.entries.get? key = some x ∨ p.bringing? = some x.fetch := by
  cases h with
  | hit hx | hitAgain hx => exact .inr (.inl (hq ▸ hx))
  | succeed v =>
    obtain rfl := Option.some.inj hq
    exact .inr (.inr rfl)
  | store => exact .inl hq
  | @remove _ answer | @release _ answer =>
    cases answer with
    | ok y => exact .inl hq
    | error e => cases hq
  | _ => cases hq

end

section

variable {recent : Option Nat → Prop} {key : κ} {begun started : Nat} {s next s' : Threads κ ν ε}

theorem OnlyRecent.move {i : Nat} {t : Thread κ ν ε} {phase : Phase ν ε}
    (hrecent : ∀ f, begun ≤ f → recent (some f)) (hs : OnlyRecent recent key begun started s)
    (hi : s.threads[i]? = some t) (h : Move t.key s t.phase next phase) :
    OnlyRecent recent key begun started (next.setPhase i t.key phase) := by
  have ht : t ∈ s.threads := List.mem_of_getElem? hi
  have hbringing : t.key = key → ∀ fetch, t.phase.bringing? = some fetch → recent fetch :=
    hs.bringing t ht
  have hbegun : begun ≤ next.fetches.length := Nat.le_trans hs.begun (fetches_of_move h)
  refine ⟨hbegun, fun x hx => ?_, fun u hu hkey fetch hfetch => ?_,
    fun j u hj hu hkey x hx => ?_⟩
  · by_cases hkey : t.key = key
    · subst hkey
      rcases brought_of_move h hx with hold | hnew
      · exact hs.entry x hold
      · exact hbringing rfl x.fetch hnew
    · exact hs.entry x ((get?_of_move h (Ne.symm hkey)).1 ▸ hx)
  · rcases mem_setPhase h hu with hold | rfl
    · exact hs.bringing u hold hkey fetch hfetch
    · rcases bringing_of_move h hfetch with hbefore | rfl
      · exact hbringing hkey fetch hbefore
      · exact hrecent _ hs.begun
  · rw [getElem?_setPhase hi h] at hu
    split_ifs at hu with hij
    · obtain rfl := Option.some.inj hu
      subst hkey
      rcases value_of_move h hx with hbefore | hfound | hbrought
      · exact hs.answers i t (hij ▸ hj) hi rfl x hbefore
      · exact hs.entry x hfound
      · exact hbringing rfl x.fetch hbrought
    · exact hs.answers j u hj hu hkey x hx

theorem OnlyRecent.step {a : Action κ ν ε} (hrecent : ∀ f, begun ≤ f → recent (some f))
    (hs : OnlyRecent recent key begun started s) (h : s.Steps a s') :
    OnlyRecent recent key begun started s' := by
  cases h with
  | get k =>
    refine ⟨hs.begun, hs.entry, fun t ht hkey fetch hfetch => ?_, fun i t hle hi hkey x hx => ?_⟩
    · rcases mem_get ht with hold | rfl
      · exact hs.bringing t hold hkey fetch hfetch
      · cases hfetch
    · rcases getElem?_get hi with hold | rfl
      · exact hs.answers i t hle hold hkey x hx
      · cases hx
  | move _ hi hmove => exact hs.move hrecent hi hmove
  | invalidate k =>
    refine ⟨hs.begun, fun x hx => hs.entry x ?_, hs.bringing, hs.answers⟩
    rw [Assoc.get?_erase] at hx
    split_ifs at hx
    exact hx
  | clear => exact ⟨hs.begun, by simp, hs.bringing, hs.answers⟩

end

/-- What a thread brings has the number of a fetch. -/
theorem bringing_numbered {entries : Assoc κ ν} {actions : List (Action κ ν ε)} {s : Threads κ ν ε}
    (hrun : (idle entries).run actions = some s) :
    ∀ t ∈ s.threads, t.phase.bringing? ≠ some none := by
  refine run_invariant (P := fun s => ∀ t ∈ s.threads, t.phase.bringing? ≠ some none) ?_
    (by simp [idle]) hrun
  intro s a s' hs h
  cases h with
  | get k =>
    intro t ht hnone
    rcases mem_get ht with hold | rfl
    · exact hs t hold hnone
    · cases hnone
  | @move _ i t next phase _ hi hmove =>
    intro u hu hnone
    rcases mem_setPhase hmove hu with hold | rfl
    · exact hs u hold hnone
    · rcases bringing_of_move hmove hnone with hbefore | hbegun
      · exact hs t (List.mem_of_getElem? hi) hbefore
      · cases hbegun
  | invalidate k => exact hs
  | clear => exact hs

/-- **Values behind a removal.** A thread that begins behind a removal and asks for the key gets the value
of a fetch that begins behind the removal too, or that is under way then. -/
theorem run_after_removal {entries : Assoc κ ν} {before later : List (Action κ ν ε)}
    {s u : Threads κ ν ε} {removal : Action κ ν ε} {key : κ} {i : Nat} {x : Fetched ν}
    (hbefore : (idle entries).run before = some s) (hremoval : removal.Removes key)
    (hrun : s.run (removal :: later) = some u) (hlate : s.threads.length ≤ i)
    (hi : u.threads[i]? = some ⟨key, .done (.ok x)⟩) :
    ∃ fetch, x.fetch = some fetch ∧ (s.fetches.length ≤ fetch ∨ s.UnderWay key fetch) := by
  let recent : Option Nat → Prop := fun o =>
    ∃ fetch, o = some fetch ∧ (s.fetches.length ≤ fetch ∨ s.UnderWay key fetch)
  have hrecent : ∀ f, s.fetches.length ≤ f → recent (some f) := fun f hf => ⟨f, rfl, .inl hf⟩
  have hbringing : ∀ t ∈ s.threads, t.key = key → ∀ fetch, t.phase.bringing? = some fetch →
      recent fetch := by
    intro t ht hkey fetch hfetch
    cases fetch with
    | none => exact absurd hfetch (bringing_numbered hbefore t ht)
    | some f => exact ⟨f, rfl, .inr ⟨t, ht, hkey, hfetch⟩⟩
  have hnone : ∀ i t, s.threads.length ≤ i → s.threads[i]? = some t → t.key = key →
      ∀ x, t.phase.value? = some x → recent x.fetch := by
    intro i t hle hi
    rw [List.getElem?_eq_none hle] at hi
    cases hi
  obtain ⟨next, hstep, hrest⟩ := Option.bind_eq_some_iff.mp hrun
  have hnext : OnlyRecent recent key s.fetches.length s.threads.length next := by
    cases removal with
    | invalidate k =>
      obtain rfl := Option.some.inj hstep
      refine ⟨Nat.le_refl _, fun x hx => ?_, hbringing, hnone⟩
      rw [Assoc.get?_erase, if_pos hremoval.symm] at hx
      cases hx
    | clear =>
      obtain rfl := Option.some.inj hstep
      exact ⟨Nat.le_refl _, by simp, hbringing, hnone⟩
    | _ => exact hremoval.elim
  have hlast : OnlyRecent recent key s.fetches.length s.threads.length u :=
    run_invariant (fun hs h => hs.step hrecent h) hnext hrest
  exact hlast.answers i _ hlate hi rfl x rfl

/-- A thread has begun its fetch. -/
def oneFetching : List (Action String Nat Unit) :=
  [.get "ACME", .advance 0, .advance 0, .advance 0, .advance 0, .advance 0]

/-- The fetch ends and its value is stored; then a second thread asks for the key, and finds it. -/
def storedAndFound : List (Action String Nat Unit) :=
  [.arrive 0 (.ok 7), .advance 0, .get "ACME", .advance 1]

/-- A value that a later thread gets, from the fetch that was under way. -/
theorem run_after_removal_oneFetching :
    ∃ s u, (idle []).run oneFetching = some s ∧ (Action.clear : Action String Nat Unit).Removes "ACME" ∧
      s.run (.clear :: storedAndFound) = some u ∧ s.threads.length ≤ 1 ∧
      u.threads[1]? = some ⟨"ACME", .done (.ok ⟨some 0, 7⟩)⟩ ∧
      ∃ fetch, some 0 = some fetch ∧ (s.fetches.length ≤ fetch ∨ s.UnderWay "ACME" fetch) := by
  have hremoves : (Action.clear : Action String Nat Unit).Removes "ACME" := trivial
  obtain ⟨s, u, hbefore, hrun, hlate, hi⟩ : ∃ s u, (idle []).run oneFetching = some s ∧
      s.run (.clear :: storedAndFound) = some u ∧ s.threads.length ≤ 1 ∧
      u.threads[1]? = some ⟨"ACME", .done (.ok ⟨some 0, 7⟩)⟩ := ⟨_, _, rfl, rfl, Nat.le_refl 1, rfl⟩
  exact ⟨s, u, hbefore, hremoves, hrun, hlate, hi, run_after_removal hbefore hremoves hrun hlate hi⟩

/-- A removal does not keep later threads from old values: here the second thread begins behind the removal,
by either kind of it, and gets the value of the first fetch, which had begun in front of the removal. -/
theorem run_staleRead :
    ∃ s, (idle []).run oneFetching = some s ∧ s.fetches = ["ACME"] ∧ s.threads.length = 1 ∧
      (∃ u, s.run (.invalidate "ACME" :: storedAndFound) = some u ∧
        u.threads[1]? = some ⟨"ACME", .done (.ok ⟨some 0, 7⟩)⟩) ∧
      (∃ u, s.run (.clear :: storedAndFound) = some u ∧
        u.threads[1]? = some ⟨"ACME", .done (.ok ⟨some 0, 7⟩)⟩) :=
  ⟨_, rfl, rfl, rfl, ⟨_, rfl, rfl⟩, ⟨_, rfl, rfl⟩⟩

end Threads

end Backtest.Cache
