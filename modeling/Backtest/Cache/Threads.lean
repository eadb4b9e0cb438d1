import Backtest.Assoc

/-!
# Threads that share a cache

`Threads` is a cache that several threads ask for values at once, in steps none of which another
thread can divide. A thread looks its key up; if there is no value, it takes the key's lock, creating it
if there is none, waits until no other thread holds it, looks the key up once more, and fetches. A
value that is fetched is stored, then the lock is taken out of the table, and last it is released.

`Threads.step` is one step of one thread, or a removal from the cache; a run is a list of `Action`s.
Locks and fetches are numbered in the order in which they come to be, so that of two fetches the one
with the smaller number began first.
-/

namespace Backtest.Cache

/-- A value, and the number of the fetch that brought it. -/
structure Fetched (ν : Type) where
  /-- None for a value that was there from the start. -/
  fetch : Option Nat
  value : ν
  deriving DecidableEq

/-- How far a thread is, named for the step that it took last. -/
inductive Phase (ν ε : Type) where
  | started
  | missed
  | waiting (lock : Nat)
  | holding (lock : Nat)
  | missedAgain (lock : Nat)
  /-- A fetch has begun and not yet ended. -/
  | fetching (lock fetch : Nat)
  | fetched (lock : Nat) (answer : Except ε (Fetched ν))
  | stored (lock : Nat) (answer : Except ε (Fetched ν))
  | leaving (lock : Nat) (answer : Except ε (Fetched ν))
  | done (answer : Except ε (Fetched ν))

/-- The answer of a thread that is done. -/
def Phase.answer? {ν ε : Type} : Phase ν ε → Option (Except ε (Fetched ν))
  | .done answer => some answer
  | _ => none

/-- A thread and the key that it asks for. -/
structure Thread (κ ν ε : Type) where
  key : κ
  phase : Phase ν ε

/-- A cache and the threads that use it. -/
structure Threads (κ ν ε : Type) where
  entries : Assoc κ (Fetched ν)
  /-- The lock of each key that has one. -/
  locks : Assoc κ Nat
  /-- The locks that a thread holds. -/
  held : List Nat
  /-- How many locks were created. -/
  created : Nat
  /-- The key of each fetch that began. -/
  fetches : List κ
  threads : List (Thread κ ν ε)

/-- What can happen next. -/
inductive Action (κ ν ε : Type) where
  /-- A new thread asks for a key. -/
  | get (key : κ)
  /-- A thread takes its next step. -/
  | advance (thread : Nat)
  /-- The fetch of a thread ends. -/
  | arrive (thread : Nat) (result : Except ε ν)
  /-- The value under a key is removed. -/
  | invalidate (key : κ)
  | clear

namespace Threads

variable {κ ν ε : Type} [DecidableEq κ]

/-- A cache with these values, and no thread. -/
def idle (entries : Assoc κ ν) : Threads κ ν ε :=
  ⟨entries.map fun e => (e.1, ⟨none, e.2⟩), [], [], 0, [], []⟩

/-- A thread is in another phase. -/
def setPhase (s : Threads κ ν ε) (thread : Nat) (key : κ) (phase : Phase ν ε) : Threads κ ν ε :=
  { s with threads := s.threads.set thread ⟨key, phase⟩ }

/-- The next step of a thread, if it can take one. -/
def advance (s : Threads κ ν ε) (thread : Nat) (t : Thread κ ν ε) : Option (Threads κ ν ε) :=
  let go (s : Threads κ ν ε) (phase : Phase ν ε) := some (s.setPhase thread t.key phase)
  match t.phase with
  | .started =>
    match s.entries.get? t.key with
    | some value => go s (.done (.ok value))
    | none => go s .missed
  | .missed =>
    match s.locks.get? t.key with
    | some lock => go s (.waiting lock)
    | none => go { s with locks := s.locks.put t.key s.created, created := s.created + 1 }
        (.waiting s.created)
  | .waiting lock =>
    if lock ∈ s.held then none else go { s with held := lock :: s.held } (.holding lock)
  | .holding lock =>
    match s.entries.get? t.key with
    | some value => go s (.leaving lock (.ok value))
    | none => go s (.missedAgain lock)
  | .missedAgain lock =>
    go { s with fetches := s.fetches ++ [t.key] } (.fetching lock s.fetches.length)
  | .fetching .. => none
  | .fetched lock (.ok value) =>
    go { s with entries := s.entries.put t.key value } (.stored lock (.ok value))
  | .fetched lock (.error e) => go s (.stored lock (.error e))
  | .stored lock answer => go { s with locks := s.locks.erase t.key } (.leaving lock answer)
  | .leaving lock answer => go { s with held := s.held.erase lock } (.done answer)
  | .done _ => none

/-- The end of a thread's fetch, if it is fetching. -/
def arrive (s : Threads κ ν ε) (thread : Nat) (t : Thread κ ν ε) (result : Except ε ν) :
    Option (Threads κ ν ε) :=
  match t.phase with
  | .fetching lock fetch =>
    some (s.setPhase thread t.key (.fetched lock (result.map fun v => ⟨some fetch, v⟩)))
  | _ => none

/-- What an action makes of a state, if it is possible there. -/
def step (s : Threads κ ν ε) : Action κ ν ε → Option (Threads κ ν ε)
  | .get key => some { s with threads := s.threads ++ [⟨key, .started⟩] }
  | .advance thread => s.threads[thread]?.bind fun t => s.advance thread t
  | .arrive thread result => s.threads[thread]?.bind fun t => s.arrive thread t result
  | .invalidate key => some { s with entries := s.entries.erase key }
  | .clear => some { s with entries := [] }

/-- What a list of actions makes of a state, if they are possible one after the other. -/
def run (s : Threads κ ν ε) : List (Action κ ν ε) → Option (Threads κ ν ε)
  | [] => some s
  | a :: rest => (s.step a).bind fun next => next.run rest

/-- A turn of a thread: its next step, or the end of its fetch, or nothing while it waits. -/
def turn (fetch : κ → Except ε ν) (s : Threads κ ν ε) (thread : Nat) : Threads κ ν ε :=
  match s.threads[thread]? with
  | none => s
  | some t =>
    match s.arrive thread t (fetch t.key), s.advance thread t with
    | some next, _ => next
    | none, some next => next
    | none, none => s

/-- A turn of every thread. -/
def round (fetch : κ → Except ε ν) (s : Threads κ ν ε) : Threads κ ν ε :=
  (List.range s.threads.length).foldl (turn fetch) s

/-- The state after as many rounds as there are steps to take: a thread takes at most ten, and in each
round one takes a step until all are done. -/
def settle (fetch : κ → Except ε ν) (s : Threads κ ν ε) : Threads κ ν ε :=
  (List.range (10 * s.threads.length)).foldl (fun s _ => round fetch s) s

end Threads

end Backtest.Cache
