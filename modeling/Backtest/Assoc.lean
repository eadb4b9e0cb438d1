/-!
# Association lists

An `Assoc κ ν` is a list of values under keys. `Assoc.put` keeps at most one value under a key.
-/

namespace Backtest

/-- Values under keys. -/
abbrev Assoc (κ ν : Type) := List (κ × ν)

namespace Assoc

variable {κ ν : Type} [DecidableEq κ]

def get? (l : Assoc κ ν) (k : κ) : Option ν := (l.find? (·.1 == k)).map (·.2)

def erase (l : Assoc κ ν) (k : κ) : Assoc κ ν := l.filter (·.1 != k)

/-- The list with a value under a key, in the place of the one that stood there. -/
def put (l : Assoc κ ν) (k : κ) (v : ν) : Assoc κ ν := (k, v) :: erase l k

@[simp] theorem get?_nil (k : κ) : get? ([] : Assoc κ ν) k = none := rfl

theorem get?_erase (l : Assoc κ ν) (k j : κ) : (l.erase k).get? j = if j = k then none else l.get? j := by
  induction l with
  | nil => simp [erase]
  | cons e l ih =>
    by_cases he : e.1 = k <;> by_cases hj : e.1 = j <;> grind [erase, get?]

theorem get?_put (l : Assoc κ ν) (k j : κ) (v : ν) :
    (l.put k v).get? j = if j = k then some v else l.get? j := by
  by_cases h : j = k
  · simp [put, get?, h]
  · have herase := get?_erase l k j
    rw [if_neg h] at herase ⊢
    rw [← herase, put, get?, get?, List.find?_cons_of_neg (by simpa using Ne.symm h)]

/-- A key has a value if it is the key of an entry. -/
theorem exists_get?_iff (l : Assoc κ ν) (k : κ) : (∃ v, l.get? k = some v) ↔ k ∈ l.map (·.1) := by
  rw [← Option.isSome_iff_exists, get?, Option.isSome_map, List.find?_isSome]
  simp

theorem nodup_erase {l : Assoc κ ν} (h : (l.map (·.1)).Nodup) (k : κ) :
    ((l.erase k).map (·.1)).Nodup :=
  (List.filter_sublist.map _).nodup h

theorem nodup_put {l : Assoc κ ν} (h : (l.map (·.1)).Nodup) (k : κ) (v : ν) :
    ((l.put k v).map (·.1)).Nodup := by
  rw [put, List.map_cons, List.nodup_cons]
  exact ⟨by simp [erase], nodup_erase h k⟩

end Assoc

end Backtest
