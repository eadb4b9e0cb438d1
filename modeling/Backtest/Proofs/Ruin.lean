import Backtest.Proofs.ConditionSets
import Backtest.Proofs.Equity
import Backtest.Proofs.FiniteReports

/-!
# Ruin

A trade may lose more than everything, if it is a short one. The growth is cut off at zero then, so that the
returns never fall below -100 percent, and it stays there: two ruinous trades are no gain. In doubles this has to
survive a growth that overflows, which times zero is a NaN; a number wins over it (`Scalar.larger`).

The equity curve and the return compound the trades in one order. At each bar of the curve the trades from the
front of the list are counted up to some point (`counted`), so what holds of the growth over all beginnings of the
list holds along the curve (`equity_ofRun`).

`Performance.ruin_absorbs` is about every list of trades and every window, whether or not they come from a rule.
-/

namespace Backtest

open Decimal (AtLeast toRat)

namespace Performance

/-! ## The trades that count at a bar -/

section

variable {α : Type}

/-- The trades that are done by each bar of the window. For a run of a rule they are those that ended by then
(`countedFrom_eq`). -/
def counted (run : Run α) : List (List (Trade α)) := countedFrom [] run.trades run.window

theorem countedFrom_between {done trades : List (Trade α)} {bars : List (Bar α)} :
    ∀ d ∈ countedFrom done trades bars, done <+: d ∧ d <+: done ++ trades := by
  induction bars generalizing done trades with
  | nil => exact List.forall_mem_nil _
  | cons bar rest ih =>
    have hsplit : done ++ trades = done ++ trades.takeWhile (fun t => t.exitDate = bar.date) ++
        trades.dropWhile fun t => t.exitDate = bar.date := by
      rw [List.append_assoc, List.takeWhile_append_dropWhile]
    rw [countedFrom, List.forall_mem_cons]
    refine ⟨⟨List.prefix_append _ _, hsplit ▸ List.prefix_append _ _⟩, fun d hd => ?_⟩
    obtain ⟨hlow, hhigh⟩ := ih d hd
    exact ⟨(List.prefix_append _ _).trans hlow, hsplit ▸ hhigh⟩

/-- From bar to bar the trades that are done become more. -/
theorem countedFrom_pairwise (done trades : List (Trade α)) (bars : List (Bar α)) :
    (countedFrom done trades bars).Pairwise (· <+: ·) := by
  induction bars generalizing done trades with
  | nil => exact .nil
  | cons bar rest ih => exact .cons (fun d hd => (countedFrom_between d hd).1) (ih _ _)

variable [Scalar α]

theorem equity_ofRun (run : Run α) :
    (ofRun run).equity = List.zipWith (fun bar done => ⟨bar.date, percent (growth ((1 : Nat) : α) done)⟩) run.window
      (counted run) :=
  equityFrom_growth _ [] _ _

end

/-! ## The floor -/

/-- A return that is a number, and no loss of more than everything. -/
structure IsAboveRuin (returnPct : Float) : Prop where
  number : returnPct.isNaN = false
  floor : -100 ≤ returnPct

theorem atLeast_growth_one (trades : List (Trade Float)) : AtLeast 0 (growth 1 trades) :=
  atLeast_growth (.inl ⟨toRat_one.1, toRat_one.2 ▸ zero_le_one⟩) trades

theorem isAboveRuin_percent (trades : List (Trade Float)) : IsAboveRuin (percent (growth 1 trades)) := by
  have hpercent := atLeast_percent (atLeast_growth_one trades)
  have hfloor : toRat (-100) = -100 := (Decimal.toRat_neg toRat_hundred.1).trans (congrArg Neg.neg toRat_hundred.2)
  exact ⟨hpercent.isNaN_eq_false, hpercent.le ((Decimal.isFinite_neg _).trans toRat_hundred.1) hfloor.le⟩

/-- The growth of a run, which its equity curve and its return show, is a number from zero on. -/
structure HasFloor (run : Run Float) : Prop where
  /-- The curve shows the growth over the trades that are done. -/
  curve : (ofRun run).equity =
    List.zipWith (fun bar done => ⟨bar.date, percent (growth 1 done)⟩) run.window (counted run)
  counted : ∀ done ∈ counted run, done <+: run.trades
  growth : ∀ done, done <+: run.trades → 0 ≤ growth 1 done ∧ (growth 1 done).isNaN = false
  equity : ∀ p ∈ (ofRun run).equity, IsAboveRuin p.returnPct
  total : IsAboveRuin (ofRun run).returnPct

theorem hasFloor (run : Run Float) : HasFloor run where
  curve := equity_ofRun run
  counted done hdone := (countedFrom_between done hdone).2
  growth done _ :=
    ⟨(atLeast_growth_one done).le toRat_zero.1 toRat_zero.2.le, (atLeast_growth_one done).isNaN_eq_false⟩
  equity p hp := by
    obtain ⟨i, hi⟩ := List.mem_iff_getElem?.mp hp
    rw [equity_ofRun, List.getElem?_zipWith_eq_some] at hi
    obtain ⟨bar, done, -, -, rfl⟩ := hi
    exact isAboveRuin_percent done
  total := isAboveRuin_percent run.trades

/-! ## Zero absorbs -/

/-- A growth of zero, of either sign, is a loss of everything. -/
theorem percent_of_zero {g : Float} (h : SameNumber g 0) : percent g = -100 := by
  have hcongr := congrArg Float.ofModel (h.congr
    (fun a => Float.Model.pack ((Float.Model.pack (a.sub .binary64 (1 : Float).toModel.unpack)).unpack.mul .binary64
      (100 : Float).toModel.unpack)) fun s t => by cases s <;> cases t <;> rfl)
  exact hcongr

theorem compound_of_zero {g : Float} (h : SameNumber g 0) (r : Float) : compound g r = 0 :=
  if_pos ((h.le_iff (.inl rfl)).mpr (by decide : (0 : Float) ≤ 0))

theorem growth_of_zero {g : Float} (h : SameNumber g 0) (t : Trade Float) (more : List (Trade Float)) :
    growth g (t :: more) = 0 := by
  induction more generalizing g t with
  | nil => exact compound_of_zero h t.returnPct
  | cons next more ih =>
    show growth (compound g t.returnPct) (next :: more) = 0
    exact ih (.inl (compound_of_zero h t.returnPct)) next

/-- What a run that lost everything over some trades comes to. -/
structure IsRuined (run : Run Float) (ruined : List (Trade Float)) : Prop where
  /-- After every later trade the growth is zero. -/
  growth : ∀ t later, ruined ++ t :: later <+: run.trades → growth 1 (ruined ++ t :: later) = 0
  /-- From a bar on at which these trades are done, the curve lies at the floor. -/
  equity : ∀ (i : Nat) (done : List (Trade Float)), (counted run)[i]? = some done → ruined <+: done →
    ∀ (j : Nat) (p : EquityPoint Float), i ≤ j → (ofRun run).equity[j]? = some p → p.returnPct = -100
  total : (ofRun run).returnPct = -100

theorem percent_of_ruined {ruined done : List (Trade Float)} (h : SameNumber (growth 1 ruined) 0)
    (hdone : ruined <+: done) : percent (growth 1 done) = -100 := by
  obtain ⟨later, rfl⟩ := hdone
  rw [growth_append]
  cases later with
  | nil => exact percent_of_zero h
  | cons t later => exact percent_of_zero (.inl (growth_of_zero h t later))

theorem isRuined {run : Run Float} {ruined : List (Trade Float)} (hruined : ruined <+: run.trades)
    (h : SameNumber (growth 1 ruined) 0) : IsRuined run ruined where
  growth t later _ := by
    rw [growth_append]
    exact growth_of_zero h t later
  equity i done hi hdone j p hij hj := by
    rw [equity_ofRun, List.getElem?_zipWith_eq_some] at hj
    obtain ⟨bar, done', -, hj, rfl⟩ := hj
    refine percent_of_ruined h ?_
    rcases Nat.eq_or_lt_of_le hij with rfl | hlt
    · rw [hi, Option.some.injEq] at hj
      exact hj ▸ hdone
    · obtain ⟨hi', rfl⟩ := List.getElem?_eq_some_iff.mp hi
      obtain ⟨hj', rfl⟩ := List.getElem?_eq_some_iff.mp hj
      exact hdone.trans (List.pairwise_iff_getElem.mp (countedFrom_pairwise [] run.trades run.window) i j hi' hj' hlt)
  total := percent_of_ruined h hruined

/-- **Ruin is a floor and absorbs.** Whatever the trades of a run return, the growth over those that are done is
never negative and never a NaN, so no return falls below -100 percent. Once the growth is zero it stays zero: after
every later trade, at every later point of the curve, and in the total. -/
theorem ruin_absorbs (run : Run Float) :
    HasFloor run ∧ ∀ ruined, ruined <+: run.trades → SameNumber (growth 1 ruined) 0 → IsRuined run ruined :=
  ⟨hasFloor run, fun _ hruined h => isRuined hruined h⟩

/-- A short position that is closed at more than twice the price of its entry, and a gain behind it. -/
theorem ruin_absorbs_flatHistory :
    ∃ run : Run Float,
      ({ Rule.buysStrength [.aboveMean] with direction := .short }).run (Bar.flatHistory [1, 2, 10, 9, 10, 5])
        .everything = .ok run ∧
      run.trades.map (·.returnPct) = [-350, 50] ∧ run.trades.take 1 <+: run.trades ∧
      SameNumber (growth 1 (run.trades.take 1)) 0 ∧ IsRuined run (run.trades.take 1) := by
  refine ⟨_, rfl, by decide +kernel, List.take_prefix 1 _, .inl (by decide +kernel), ?_⟩
  exact (ruin_absorbs _).2 _ (List.take_prefix 1 _) (.inl (by decide +kernel))

end Performance

end Backtest
