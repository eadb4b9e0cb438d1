import Mathlib.Logic.Function.Iterate
import Backtest.Cache
import Backtest.Proofs.Moves

/-!
# A thread alone

`PriceSource.cached` looks a key up, and fetches what is not there. A thread that shares the cache takes up
to ten steps for it, in which it makes a lock, holds it and throws it away (`Move`). `settle_solo` says that
a thread which no other one disturbs does what `PriceSource.cached` does, and leaves no lock behind, neither
in the table nor held. So calls that come one after the other are the same with and without locks.
-/

namespace Backtest.Cache.Threads

section

variable {κ ν ε : Type} [DecidableEq κ] {s next : Threads κ ν ε} {key : κ} {p q : Phase ν ε}

/-- The state with one thread only. -/
def solo (s : Threads κ ν ε) (key : κ) (phase : Phase ν ε) : Threads κ ν ε :=
  { s with threads := [⟨key, phase⟩] }

/-- The entries behind a fetch. -/
def settled (entries : Assoc κ (Fetched ν)) (key : κ) : Except ε (Fetched ν) → Assoc κ (Fetched ν)
  | .ok x => entries.put key x
  | .error _ => entries

theorem move_arrived (lock fetch : Nat) (result : Except ε ν) :
    Move key s (.fetching lock fetch) s (.fetched lock (result.map fun v => ⟨some fetch, v⟩)) := by
  cases result with
  | ok v => exact .succeed v
  | error e => exact .fail e

theorem move_settled (lock : Nat) (answer : Except ε (Fetched ν)) :
    Move key s (.fetched lock answer) { s with entries := settled s.entries key answer }
      (.stored lock answer) := by
  cases answer with
  | ok x => exact .store
  | error e => exact .skip

/-- A round of a thread alone is its move. -/
theorem round_of_move {fetch : κ → Except ε ν} (h : Move key s p next q)
    (hfetch : ∀ lock f, p = .fetching lock f →
      q = .fetched lock ((fetch key).map fun v => ⟨some f, v⟩)) :
    round fetch (s.solo key p) = next.solo key q := by
  cases h with
  | hit hget | miss hget | join hget | create hget | hitAgain hget | missAgain hget =>
    simp [round, turn, arrive, advance, solo, setPhase, hget]
  | acquire hfree => simp [round, turn, arrive, advance, solo, setPhase, hfree]
  | succeed v | fail e =>
    rw [hfetch _ _ rfl]
    rfl
  | _ => rfl

/-- The first of some rounds of a thread alone. -/
theorem rounds_of_move {fetch : κ → Except ε ν} (n : Nat) (h : Move key s p next q)
    (hfetch : ∀ lock f, p = .fetching lock f →
      q = .fetched lock ((fetch key).map fun v => ⟨some f, v⟩)) :
    (round fetch)^[n + 1] (s.solo key p) = (round fetch)^[n] (next.solo key q) := by
  rw [Function.iterate_succ_apply, round_of_move h hfetch]

theorem rounds_done (fetch : κ → Except ε ν) (n : Nat) (s : Threads κ ν ε)
    (answer : Except ε (Fetched ν)) :
    (round fetch)^[n] (s.solo key (.done answer)) = s.solo key (.done answer) :=
  Function.iterate_fixed rfl n

theorem settle_eq_rounds (fetch : κ → Except ε ν) (s : Threads κ ν ε) (phase : Phase ν ε) :
    settle fetch (s.solo key phase) = (round fetch)^[10] (s.solo key phase) := by
  rw [settle, List.foldl_const, List.length_range]
  rfl

/-- A thread alone that finds a value. -/
theorem settle_hit (fetch : κ → Except ε ν) {x : Fetched ν} (h : s.entries.get? key = some x) :
    settle fetch (s.solo key .started) = s.solo key (.done (.ok x)) := by
  rw [settle_eq_rounds, rounds_of_move 9 (.hit h) nofun, rounds_done]

/-- A thread alone that finds no value makes a lock, fetches once, and throws the lock away. -/
theorem settle_miss (fetch : κ → Except ε ν) {entries : Assoc κ (Fetched ν)}
    (h : entries.get? key = none) (created : Nat) (fetches : List κ) :
    let answer := (fetch key).map fun v => ⟨some fetches.length, v⟩
    settle fetch (solo ⟨entries, [], [], created, fetches, []⟩ key .started) =
      solo ⟨settled entries key answer, [], [], created + 1, fetches ++ [key], []⟩ key
        (.done answer) := by
  intro answer
  rw [settle_eq_rounds]
  calc (round fetch)^[10] (solo ⟨entries, [], [], created, fetches, []⟩ key .started)
    _ = (round fetch)^[9] (solo ⟨entries, [], [], created, fetches, []⟩ key .missed) :=
        rounds_of_move 9 (.miss h) nofun
    _ = (round fetch)^[8] (solo ⟨entries, [(key, created)], [], created + 1, fetches, []⟩ key
          (.waiting created)) :=
        rounds_of_move 8 (.create rfl) nofun
    _ = (round fetch)^[7] (solo ⟨entries, [(key, created)], [created], created + 1, fetches, []⟩ key
          (.holding created)) :=
        rounds_of_move 7 (.acquire List.not_mem_nil) nofun
    _ = (round fetch)^[6] (solo ⟨entries, [(key, created)], [created], created + 1, fetches, []⟩ key
          (.missedAgain created)) :=
        rounds_of_move 6 (.missAgain h) nofun
    _ = (round fetch)^[5] (solo ⟨entries, [(key, created)], [created], created + 1, fetches ++ [key], []⟩
          key (.fetching created fetches.length)) :=
        rounds_of_move 5 .begin nofun
    _ = (round fetch)^[4] (solo ⟨entries, [(key, created)], [created], created + 1, fetches ++ [key], []⟩
          key (.fetched created answer)) :=
        rounds_of_move 4 (move_arrived _ _ _) (by rintro _ _ ⟨⟩; rfl)
    _ = (round fetch)^[3] (solo ⟨settled entries key answer, [(key, created)], [created], created + 1,
          fetches ++ [key], []⟩ key (.stored created answer)) :=
        rounds_of_move 3 (move_settled _ _) nofun
    _ = (round fetch)^[2] (solo ⟨settled entries key answer, Assoc.erase [(key, created)] key, [created],
          created + 1, fetches ++ [key], []⟩ key (.leaving created answer)) :=
        rounds_of_move 2 .remove nofun
    _ = (round fetch)^[1] (solo ⟨settled entries key answer, Assoc.erase [(key, created)] key,
          [created].erase created, created + 1, fetches ++ [key], []⟩ key (.done answer)) :=
        rounds_of_move 1 .release nofun
    _ = solo ⟨settled entries key answer, [], [], created + 1, fetches ++ [key], []⟩ key
          (.done answer) := by
        rw [rounds_done]
        simp [Assoc.erase]

end

/-! ## A cache in front of a source -/

/-- The entries, without the fetches that brought them. -/
def values (entries : Assoc Key (Fetched (List (Bar Float)))) : Cache :=
  entries.map fun e => (e.1, e.2.value)

theorem get?_values (entries : Assoc Key (Fetched (List (Bar Float)))) (key : Key) :
    (values entries).get? key = (entries.get? key).map (·.value) := by
  simp [values, Assoc.get?, List.find?_map, Function.comp_def]

theorem values_put (entries : Assoc Key (Fetched (List (Bar Float)))) (key : Key)
    (x : Fetched (List (Bar Float))) :
    values (entries.put key x) = (values entries).put key x.value := by
  simp [values, Assoc.put, Assoc.erase, List.filter_map, Function.comp_def]

/-- **A thread alone** answers as the cache in front of the source does, with as many fetches, and leaves the
same values and no lock behind. -/
theorem settle_solo {σ : Type} (source : PriceSource σ) (state : σ)
    (entries : Assoc Key (Fetched (List (Bar Float)))) (key : Key) :
    let s : Threads Key (List (Bar Float)) Failure := ⟨entries, [], [], 0, [], []⟩
    let t := settle (fun k => (source.fetch state k.1 k.2).1) (s.solo key .started)
    let (result, next) := source.counting.cached.fetch (values entries, (state, 0)) key.1 key.2
    (∃ answer, t.threads = [⟨key, .done answer⟩] ∧ answer.map (·.value) = result) ∧
      values t.entries = next.1 ∧ t.fetches.length = next.2.2 ∧ t.locks = [] ∧ t.held = [] := by
  intro s t
  cases hget : entries.get? key with
  | some x =>
    have ht : t = s.solo key (.done (.ok x)) := settle_hit _ hget
    have hvalue : (values entries).get? key = some x.value := by rw [get?_values, hget]; rfl
    simp only [PriceSource.cached, hvalue, ht]
    exact ⟨⟨_, rfl, rfl⟩, rfl, rfl, rfl, rfl⟩
  | none =>
    have hvalue : (values entries).get? key = none := by rw [get?_values, hget]; rfl
    have ht : t = _ := settle_miss _ hget 0 []
    rcases hfetch : source.fetch state key.1 key.2 with ⟨failure | bars, last⟩
    · simp only [PriceSource.cached, PriceSource.counting, hvalue, hfetch, ht]
      exact ⟨⟨_, rfl, rfl⟩, rfl, rfl, rfl, rfl⟩
    · simp only [PriceSource.cached, PriceSource.counting, hvalue, hfetch, ht]
      exact ⟨⟨_, rfl, rfl⟩, values_put entries key _, rfl, rfl, rfl⟩

end Backtest.Cache.Threads
