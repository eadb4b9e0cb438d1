import Mathlib.Data.List.Basic
import Backtest.Cache

/-!
# Live keys

What a cache holds is told from the calls that were made on it. A key is live (`Live`) when some call
fetched its bars from the source and no later call removed them. `history_honors` says at every point of
any sequence of calls that the next one does what the live keys and the source ask for: bars of a live key
come from its fetch, those of any other key from one new fetch, and removals, counts and questions for a
ticker agree with the set of live keys. The source may answer differently each time, and may change by
itself between the calls (`Call.change`).

The cache is related to the live keys by `Mirrors`, which every call keeps (`Mirrors.perform`). The locks
of the threads play no part here, as the calls come one after the other (`Threads.settle_solo`).
-/

namespace Backtest.Cache

variable {σ : Type}

/-- A call on a source behind a cache, or a change of the source that no call made. -/
inductive Call (σ : Type) where
  /-- The bars of a key are asked for, to be shared or to be copied. -/
  | fetch (key : Key)
  | invalidate (key : Key)
  | clear
  | resolves (ticker : String)
  | size
  | change (state : σ)

inductive Reply where
  | bars (result : Except Failure (List (Bar Float)))
  | removed (found : Bool)
  | resolved (found : Bool)
  | size (n : Nat)
  | nothing

/-- A call that was made, with its reply. -/
structure Event (σ : Type) where
  call : Call σ
  /-- How often the source was asked for bars. -/
  fetches : Nat
  reply : Reply

/-- A call on a source behind a cache. -/
def Call.perform (source : PriceSource σ) (call : Call σ) (s : Cache × σ) : Event σ × (Cache × σ) :=
  match call with
  | .fetch key =>
    let (result, next) := source.counting.cached.fetch (s.1, (s.2, 0)) key.1 key.2
    (⟨call, next.2.2, .bars result⟩, (next.1, next.2.1))
  | .invalidate key =>
    let (found, next) := Cache.invalidate s.1 key
    (⟨call, 0, .removed found⟩, (next, s.2))
  | .clear => (⟨call, 0, .nothing⟩, ([], s.2))
  | .resolves ticker => (⟨call, 0, .resolved (source.cached.resolves s ticker)⟩, s)
  | .size => (⟨call, 0, .size s.1.length⟩, s)
  | .change state => (⟨call, 0, .nothing⟩, (s.1, state))

/-- The calls of a list one after the other: what happened, and the cache and the source at the end. -/
def history (source : PriceSource σ) : List (Call σ) → Cache × σ → List (Event σ) × (Cache × σ)
  | [], s => ([], s)
  | call :: rest, s =>
    let (event, next) := call.perform source s
    let (events, last) := history source rest next
    (event :: events, last)

/-- These bars of a key were fetched from the source, and not removed since. -/
def Live (past : List (Event σ)) (key : Key) (bars : List (Bar Float)) : Prop :=
  ∃ earlier e later, past = earlier ++ e :: later ∧
    (e.call = .fetch key ∧ e.fetches ≠ 0 ∧ e.reply = .bars (.ok bars)) ∧
    ∀ x ∈ later, x.call ≠ .invalidate key ∧ x.call ≠ .clear

/-- What a call has to do, made behind some others while the source is in a state. -/
structure Event.Honors (source : PriceSource σ) (state : σ) (past : List (Event σ)) (e : Event σ) :
    Prop where
  /-- The bars of a live key are those that were fetched, and nothing is fetched. -/
  hit : ∀ key bars, e.call = .fetch key → Live past key bars →
    e.fetches = 0 ∧ e.reply = .bars (.ok bars)
  /-- For another key there is one fetch, and its result is the reply. -/
  miss : ∀ key, e.call = .fetch key → (∀ bars, ¬ Live past key bars) →
    e.fetches = 1 ∧ e.reply = .bars (source.fetch state key.1 key.2).1
  /-- A failure changes no key. -/
  failed : ∀ key failure, e.call = .fetch key → e.reply = .bars (.error failure) →
    ∀ k bars, Live (past ++ [e]) k bars ↔ Live past k bars
  /-- A removal tells whether the key was live. -/
  removed : ∀ key, e.call = .invalidate key →
    ∃ found, e.reply = .removed found ∧ (found = true ↔ ∃ bars, Live past key bars)
  /-- A removal changes no other key, not even one of the same ticker. -/
  others : ∀ key k bars, e.call = .invalidate key → k ≠ key →
    (Live (past ++ [e]) k bars ↔ Live past k bars)
  /-- The size is the number of live keys. -/
  size : e.call = .size → ∃ keys : List Key, keys.Nodup ∧
    (∀ key, key ∈ keys ↔ ∃ bars, Live past key bars) ∧ e.reply = .size keys.length
  /-- A ticker is known if it has a live key, or if the source knows it. -/
  resolved : ∀ ticker, e.call = .resolves ticker → ∃ found, e.reply = .resolved found ∧
    (found = true ↔ (∃ timeframe bars, Live past (ticker, timeframe) bars) ∨
      source.resolves state ticker = true)
  /-- Nothing but a question for bars makes the source fetch. -/
  quiet : (∀ key, e.call ≠ .fetch key) → e.fetches = 0

/-! ## Live keys and one more call -/

/-- A key is live behind one more call if this call fetched its bars, or if it was live and this call did
not remove it. -/
theorem live_concat {past : List (Event σ)} {e : Event σ} {key : Key} {bars : List (Bar Float)} :
    Live (past ++ [e]) key bars ↔
      (e.call = .fetch key ∧ e.fetches ≠ 0 ∧ e.reply = .bars (.ok bars)) ∨
        (Live past key bars ∧ e.call ≠ .invalidate key ∧ e.call ≠ .clear) := by
  constructor
  · rintro ⟨earlier, x, later, hpast, hx, hlater⟩
    rcases List.eq_nil_or_concat later with rfl | ⟨front, last, rfl⟩
    · obtain ⟨-, rfl⟩ := List.append_inj' hpast rfl |>.imp_right List.singleton_inj.mp
      exact .inl hx
    · rw [List.concat_eq_append, ← List.cons_append, ← List.append_assoc] at hpast
      obtain ⟨rfl, hlast⟩ := List.append_inj' hpast rfl
      obtain rfl := List.singleton_inj.mp hlast
      rw [List.concat_eq_append, List.forall_mem_append] at hlater
      exact .inr ⟨⟨earlier, x, front, rfl, hx, hlater.1⟩, hlater.2 e (by simp)⟩
  · rintro (hfetch | ⟨⟨earlier, x, later, rfl, hx, hlater⟩, hkeep⟩)
    · exact ⟨past, e, [], rfl, hfetch, by simp⟩
    · refine ⟨earlier, x, later ++ [e], by simp, hx, ?_⟩
      rw [List.forall_mem_append]
      exact ⟨hlater, by simpa using hkeep⟩

/-- The cache holds the bars of the live keys, each key once. -/
structure Mirrors (past : List (Event σ)) (cache : Cache) : Prop where
  get?_eq_some_iff : ∀ key bars, cache.get? key = some bars ↔ Live past key bars
  nodup : (cache.map (·.1)).Nodup

/-! ## Asking for bars -/

section

variable (source : PriceSource σ) {s : Cache × σ} {key : Key}

theorem perform_hit {bars : List (Bar Float)} (h : s.1.get? key = some bars) :
    (Call.fetch key).perform source s = (⟨.fetch key, 0, .bars (.ok bars)⟩, s) := by
  simp [Call.perform, PriceSource.cached, h]

theorem perform_ok {bars : List (Bar Float)} {next : σ} (h : s.1.get? key = none)
    (hfetch : source.fetch s.2 key.1 key.2 = (.ok bars, next)) :
    (Call.fetch key).perform source s =
      (⟨.fetch key, 1, .bars (.ok bars)⟩, (s.1.put key bars, next)) := by
  simp [Call.perform, PriceSource.cached, PriceSource.counting, h, hfetch]

theorem perform_error {failure : Failure} {next : σ} (h : s.1.get? key = none)
    (hfetch : source.fetch s.2 key.1 key.2 = (.error failure, next)) :
    (Call.fetch key).perform source s = (⟨.fetch key, 1, .bars (.error failure)⟩, (s.1, next)) := by
  simp [Call.perform, PriceSource.cached, PriceSource.counting, h, hfetch]

end

/-- Every call keeps the cache in agreement with the live keys. -/
theorem Mirrors.perform (source : PriceSource σ) {past : List (Event σ)} {s : Cache × σ}
    (hs : Mirrors past s.1) (call : Call σ) :
    Mirrors (past ++ [(call.perform source s).1]) (call.perform source s).2.1 := by
  have hkeep : ∀ {e : Event σ}, e.fetches = 0 → (∀ key, e.call ≠ .invalidate key) → e.call ≠ .clear →
      Mirrors (past ++ [e]) s.1 := by
    intro e hfetches hinvalidate hclear
    refine ⟨fun key bars => ?_, hs.nodup⟩
    rw [live_concat, hs.get?_eq_some_iff]
    simp [hfetches, hinvalidate, hclear]
  cases call with
  | fetch key =>
    cases hget : s.1.get? key with
    | some bars =>
      rw [perform_hit source hget]
      exact hkeep rfl (by simp) (by simp)
    | none =>
      rcases hfetch : source.fetch s.2 key.1 key.2 with ⟨failure | bars, next⟩
      · rw [perform_error source hget hfetch]
        refine ⟨fun k bars => ?_, hs.nodup⟩
        rw [live_concat, hs.get?_eq_some_iff]
        simp
      · rw [perform_ok source hget hfetch]
        refine ⟨fun k found => ?_, Assoc.nodup_put hs.nodup key bars⟩
        rw [live_concat, Assoc.get?_put, ← hs.get?_eq_some_iff]
        by_cases hk : k = key
        · subst hk
          simp [hget]
        · simp [hk, Ne.symm hk]
  | invalidate key =>
    refine ⟨fun k bars => ?_, Assoc.nodup_erase hs.nodup key⟩
    rw [live_concat, ← hs.get?_eq_some_iff]
    simp only [Call.perform, invalidate, Assoc.get?_erase]
    by_cases hk : k = key
    · simp [hk]
    · simp [hk, Ne.symm hk]
  | clear =>
    refine ⟨fun k bars => ?_, List.nodup_nil⟩
    rw [live_concat]
    simp [Call.perform]
  | resolves ticker => exact hkeep rfl (by simp [Call.perform]) (by simp [Call.perform])
  | size => exact hkeep rfl (by simp [Call.perform]) (by simp [Call.perform])
  | change state => exact hkeep rfl (by simp [Call.perform]) (by simp [Call.perform])

theorem Mirrors.history (source : PriceSource σ) {past : List (Event σ)} {s : Cache × σ}
    (hs : Mirrors past s.1) (calls : List (Call σ)) :
    Mirrors (past ++ (history source calls s).1) (Cache.history source calls s).2.1 := by
  induction calls generalizing past s with
  | nil => simpa [Cache.history] using hs
  | cons call rest ih =>
    have hnext := ih (hs.perform source call)
    rwa [List.append_assoc] at hnext

theorem mirrors_nil : Mirrors ([] : List (Event σ)) [] :=
  ⟨fun key bars => by simp [Live], List.nodup_nil⟩

/-! ## Main statement -/

section

variable {source : PriceSource σ} {past : List (Event σ)} {s : Cache × σ}

theorem Mirrors.exists_live_iff {cache : Cache} (hs : Mirrors past cache) (key : Key) :
    (∃ bars, Live past key bars) ↔ key ∈ cache.map (·.1) := by
  rw [← Assoc.exists_get?_iff]
  exact exists_congr fun bars => (hs.get?_eq_some_iff key bars).symm

/-- A ticker is known to the cache if it has a live key. -/
theorem Mirrors.knows_iff {cache : Cache} (hs : Mirrors past cache) (ticker : String) :
    cache.knows ticker = true ↔ ∃ timeframe bars, Live past (ticker, timeframe) bars := by
  simp only [hs.exists_live_iff, knows, List.any_eq_true, beq_iff_eq, List.mem_map]
  constructor
  · rintro ⟨⟨⟨_, timeframe⟩, bars⟩, hmem, rfl⟩
    exact ⟨timeframe, _, hmem, rfl⟩
  · rintro ⟨timeframe, e, hmem, hkey⟩
    exact ⟨e, hmem, congrArg Prod.fst hkey⟩

theorem perform_call (call : Call σ) : (call.perform source s).1.call = call := by
  cases call <;> rfl

/-- Only bars that were asked for are fetched. -/
theorem perform_fetches {call : Call σ} (h : ∀ key, call ≠ .fetch key) :
    (call.perform source s).1.fetches = 0 := by
  cases call with
  | fetch key => exact absurd rfl (h key)
  | _ => rfl

/-- A call on a cache that holds the bars of the live keys does what these ask for. -/
theorem Mirrors.honors (hs : Mirrors past s.1) (call : Call σ) :
    (call.perform source s).1.Honors source s.2 past where
  hit key bars hcall hlive := by
    obtain rfl := (perform_call call).symm.trans hcall
    rw [perform_hit source ((hs.get?_eq_some_iff key bars).mpr hlive)]
    exact ⟨rfl, rfl⟩
  miss key hcall hdead := by
    obtain rfl := (perform_call call).symm.trans hcall
    have hget : s.1.get? key = none :=
      Option.eq_none_iff_forall_ne_some.mpr fun bars h => hdead bars ((hs.get?_eq_some_iff key bars).mp h)
    rcases hfetch : source.fetch s.2 key.1 key.2 with ⟨failure | bars, next⟩
    · rw [perform_error source hget hfetch]
      exact ⟨rfl, rfl⟩
    · rw [perform_ok source hget hfetch]
      exact ⟨rfl, rfl⟩
  failed key failure hcall hreply k bars := by
    rw [live_concat, hcall, hreply]
    simp
  removed key hcall := by
    obtain rfl := (perform_call call).symm.trans hcall
    refine ⟨(s.1.get? key).isSome, rfl, ?_⟩
    rw [Option.isSome_iff_exists]
    exact exists_congr (hs.get?_eq_some_iff key)
  others key k bars hcall hk := by
    rw [live_concat, hcall]
    simp [hk.symm]
  size hcall := by
    obtain rfl := (perform_call call).symm.trans hcall
    exact ⟨s.1.map (·.1), hs.nodup, fun key => (hs.exists_live_iff key).symm,
      by simp [Call.perform]⟩
  resolved ticker hcall := by
    obtain rfl := (perform_call call).symm.trans hcall
    refine ⟨_, rfl, ?_⟩
    rw [← hs.knows_iff]
    simp [PriceSource.cached]
  quiet hcall := perform_fetches fun key hkey => hcall key ((perform_call call).trans hkey)

end

/-- **A cache answers from its live keys**: whatever calls were made on a cache that was empty at first, it
holds the bars of the live keys, and the next call does what the live keys and the source ask for. -/
theorem history_honors (source : PriceSource σ) (state : σ) (calls : List (Call σ)) (call : Call σ) :
    Mirrors (history source calls ([], state)).1 (history source calls ([], state)).2.1 ∧
      (call.perform source (history source calls ([], state)).2).1.Honors source
        (history source calls ([], state)).2.2 (history source calls ([], state)).1 := by
  have hstart : Mirrors ([] : List (Event σ)) (([], state) : Cache × σ).1 := mirrors_nil
  have hmirrors := hstart.history source calls
  rw [List.nil_append] at hmirrors
  exact ⟨hmirrors, hmirrors.honors call⟩

end Backtest.Cache
