import Backtest.Trade

/-!
# Trades of holdings

`simulate` closes the holdings of a window one after the other and gives up at the first whose return
is not finite. `Holding.trade` is the trade of a holding whatever its return is. So a simulation
succeeds with the trades of all holdings when all their returns are finite (`simulate_eq_ok_iff`), and
fails exactly when one of them is not (`simulate_eq_error_iff`).
-/

namespace Backtest

/-- A history of one bar a day, with one price all day long. -/
def Bar.flatHistory (prices : List Float) : List (Bar Float) :=
  prices.zipIdx.map fun (p, i) => ⟨⟨i⟩, p, p, p, p, p⟩

variable {α : Type} [Scalar α]

/-- The trade of a holding, with a return that need not be finite. -/
def Holding.trade (d : Direction) (h : Holding α) : Trade α where
  direction := d
  entryDate := h.entry.date
  entryPrice := h.entry.close
  exitDate := h.exit.date
  exitPrice := h.exit.close
  returnPct := d.returnPct (h.exit.close / h.entry.close)
  reason := h.reason

/-- Whether a trade has a finite return. -/
def Trade.HasFiniteReturn (t : Trade α) : Prop := Scalar.isFinite t.returnPct = true

theorem Holding.close_of_finite {d : Direction} {h : Holding α} (hs : (h.trade d).HasFiniteReturn) :
    h.close d = .ok (h.trade d) := if_pos hs

theorem Holding.close_of_not_finite {d : Direction} {h : Holding α} (hs : ¬ (h.trade d).HasFiniteReturn) :
    h.close d = .error ⟨h.entry.date, h.entry.close⟩ := if_neg hs

/-- Closing holdings one after the other: all trades, if every return is finite. -/
theorem mapM_close_of_finite {d : Direction} {hs : List (Holding α)}
    (hall : ∀ h ∈ hs, (h.trade d).HasFiniteReturn) :
    hs.mapM (Holding.close d) = .ok (hs.map (Holding.trade d)) := by
  induction hs with
  | nil => rfl
  | cons h hs ih =>
    rw [List.mapM_cons, Holding.close_of_finite (hall h (by simp)),
      ih fun x hx => hall x (by simp [hx])]
    rfl

/-- Closing holdings one after the other: a failure, if a return is not finite. -/
theorem mapM_close_of_not_finite {d : Direction} {hs : List (Holding α)}
    (hbad : ∃ h ∈ hs, ¬ (h.trade d).HasFiniteReturn) :
    ∃ bad, hs.mapM (Holding.close d) = .error bad := by
  induction hs with
  | nil => simp at hbad
  | cons h hs ih =>
    rw [List.mapM_cons]
    by_cases hh : (h.trade d).HasFiniteReturn
    · obtain ⟨bad, hb⟩ := ih <| by
        obtain ⟨x, hx, hxs⟩ := hbad
        rcases List.mem_cons.mp hx with rfl | hx
        · exact absurd hh hxs
        · exact ⟨x, hx, hxs⟩
      rw [Holding.close_of_finite hh, hb]
      exact ⟨bad, rfl⟩
    · rw [Holding.close_of_not_finite hh]
      exact ⟨_, rfl⟩

/-- A simulation succeeds with the trades of all holdings, and only if all returns are finite. -/
theorem simulate_eq_ok_iff {d : Direction} {window : List (Bar α)} {signal : List Bool}
    {trades : List (Trade α)} :
    simulate d window signal = .ok trades ↔
      trades = (holdings window signal).map (Holding.trade d) ∧ ∀ t ∈ trades, t.HasFiniteReturn := by
  rw [simulate]
  constructor
  · intro h
    have hall : ∀ x ∈ holdings window signal, (x.trade d).HasFiniteReturn := by
      intro x hx
      apply Classical.byContradiction
      intro hbad
      obtain ⟨bad, hb⟩ := mapM_close_of_not_finite ⟨x, hx, hbad⟩
      rw [hb] at h
      cases h
    rw [mapM_close_of_finite hall, Except.ok.injEq] at h
    subst h
    refine ⟨rfl, ?_⟩
    intro t ht
    obtain ⟨x, hx, rfl⟩ := List.mem_map.mp ht
    exact hall x hx
  · rintro ⟨rfl, hall⟩
    exact mapM_close_of_finite fun x hx => hall _ (List.mem_map_of_mem hx)

/-- A simulation fails exactly if the return of some holding is not finite. -/
theorem simulate_eq_error_iff {d : Direction} {window : List (Bar α)} {signal : List Bool} :
    (∃ bad, simulate d window signal = .error bad) ↔
      ∃ h ∈ holdings window signal, ¬ (h.trade d).HasFiniteReturn := by
  constructor
  · rintro ⟨bad, hb⟩
    apply Classical.byContradiction
    intro hnone
    have hall : ∀ h ∈ holdings window signal, (h.trade d).HasFiniteReturn := by
      intro h hh
      apply Classical.byContradiction
      intro hbad
      exact hnone ⟨h, hh, hbad⟩
    rw [simulate, mapM_close_of_finite hall] at hb
    cases hb
  · exact mapM_close_of_not_finite

end Backtest
