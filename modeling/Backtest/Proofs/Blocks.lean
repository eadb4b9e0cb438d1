import Mathlib.Data.List.Forall2
import Mathlib.Data.Nat.Find
import Backtest.Proofs.Trades

/-!
# Trades and the blocks of a signal

The trades of a simulation are told from the signal alone, without walking along it. A `Block` is a
longest stretch of bars on which the signal fires. A block can be entered if it holds a bar with a
positive close that is not the last bar of the window; it is entered at the first such bar, and left
at the first bar behind it, or at the last bar of the window if there is none (`Span.InBlock`).

`simulate_blocks`: the trades are those of the blocks that can be entered, in order, one for each.

The proof follows `holdingsFrom` from bar to bar. Inside, a span is described without the beginning of
its block (`IsSpan`): no bar of the stretch in front of its entry can be entered (`Searching`). This is
what the walk knows at each bar while no position is open, and `Walked` says it for both states.
-/

namespace Backtest

variable {α : Type} [Scalar α]

/-! ## Blocks and spans -/

/-- The signal fires from `first` up to and without `stop`, and neither right before nor at `stop`. -/
structure Block (signal : List Bool) (first stop : Nat) : Prop where
  nonempty : first < stop
  fires : ∀ i, first ≤ i → i < stop → signal[i]? = some true
  left : first = 0 ∨ signal[first - 1]? = some false
  right : stop = signal.length ∨ signal[stop]? = some false

/-- A bar of this index has a positive close and is not the last one. -/
def CanEnter (bars : List (Bar α)) (i : Nat) : Prop :=
  i + 1 < bars.length ∧ ∃ bar, bars[i]? = some bar ∧ ((0 : Nat) : α) < bar.close

/-- The indices of the bars at which a position is opened and closed, and why it is closed. -/
structure Span where
  entry : Nat
  exit : Nat
  reason : ExitReason
  deriving DecidableEq

/-- The span of the block from `first` up to and without `stop`. -/
structure Span.InBlock (bars : List (Bar α)) (first stop : Nat) (s : Span) : Prop where
  inside : first ≤ s.entry ∧ s.entry < stop
  canEnter : CanEnter bars s.entry
  least : ∀ i, first ≤ i → i < s.entry → ¬ CanEnter bars i
  closed : (stop < bars.length ∧ s.exit = stop ∧ s.reason = .signal) ∨
    (stop = bars.length ∧ s.exit = bars.length - 1 ∧ s.reason = .endOfData)

structure Span.Bounds (bars : List (Bar α)) (s : Span) (h : Holding α) : Prop where
  entry : bars[s.entry]? = some h.entry
  exit : bars[s.exit]? = some h.exit
  reason : s.reason = h.reason

/-- The trade of a span: dates and prices are those of its two bars. -/
def Span.IsTrade (d : Direction) (bars : List (Bar α)) (s : Span) (t : Trade α) : Prop :=
  ∃ entry exit, bars[s.entry]? = some entry ∧ bars[s.exit]? = some exit ∧
    t = ⟨d, entry.date, entry.close, exit.date, exit.close,
      d.returnPct (exit.close / entry.close), s.reason⟩

/-! ## Spans without blocks -/

section walk

variable (bars : List (Bar α)) (signal : List Bool)

/-- The signal fires from `i` up to and without `j`. -/
def Firing (i j : Nat) : Prop := ∀ k, i ≤ k → k < j → signal[k]? = some true

/-- No bar of the stretch of firing bars in front of `i` can be entered. -/
def Searching (i : Nat) : Prop := ∀ j, j < i → Firing signal j i → ¬ CanEnter bars j

/-- A bar that fires, can be entered, and is the first such bar of its stretch. -/
structure Opening (e : Nat) : Prop where
  fires : signal[e]? = some true
  canEnter : CanEnter bars e
  searching : Searching bars signal e

/-- A span told from its neighbourhood. -/
structure IsSpan (s : Span) : Prop where
  opening : Opening bars signal s.entry
  forward : s.entry < s.exit
  firing : Firing signal s.entry s.exit
  closed : (signal[s.exit]? = some false ∧ s.reason = .signal) ∨
    (signal[s.exit]? = some true ∧ s.exit + 1 = bars.length ∧ s.reason = .endOfData)

end walk

section

variable {bars : List (Bar α)} {signal : List Bool} {i j k e : Nat} {s : Span}

theorem Firing.snoc (h : Firing signal i j) (hj : signal[j]? = some true) :
    Firing signal i (j + 1) := by
  intro k hik hkj
  by_cases hk : k = j
  · rw [hk]
    exact hj
  · exact h k hik (by omega)

theorem Firing.left (h : Firing signal i j) (hk : i ≤ k) : Firing signal k j :=
  fun l hkl hlj => h l (by omega) hlj

theorem Firing.right (h : Firing signal i j) (hk : k ≤ j) : Firing signal i k :=
  fun l hil hlk => h l hil (by omega)

/-- A bar that does not fire ends every stretch in front of it. -/
theorem searching_of_quiet (hi : signal[i]? = some false) : Searching bars signal (i + 1) := by
  intro j hj hfire
  have := hfire i (by omega) (by omega)
  rw [hi] at this
  cases this

/-- Passing a bar that cannot be entered. -/
theorem Searching.succ (h : Searching bars signal i) (hi : ¬ Opening bars signal i) :
    Searching bars signal (i + 1) := by
  intro j hj hfire hcan
  by_cases hji : j = i
  · subst hji
    exact hi ⟨hfire j le_rfl (by omega), hcan, h⟩
  · exact h j (by omega) (hfire.right (by omega)) hcan

/-- Two openings do not lie on one stretch. -/
theorem Opening.not_firing (he : Opening bars signal e) (hi : Opening bars signal i) (hlt : e < i) :
    ¬ Firing signal e i :=
  fun hfire => hi.searching e hlt hfire he.canEnter

/-- A span is left at the first bar that does not fire. -/
theorem IsSpan.eq_of_quiet (hlen : signal.length = bars.length) (hs : IsSpan bars signal s)
    (hlt : s.entry < i) (hfire : Firing signal s.entry i) (hi : signal[i]? = some false) :
    s = ⟨s.entry, i, .signal⟩ := by
  have hil : i < signal.length := (List.getElem?_eq_some_iff.mp hi).1
  have hge : i ≤ s.exit := by
    by_contra hlt'
    have hexit := hfire s.exit (by have := hs.forward; omega) (by omega)
    rcases hs.closed with ⟨hquiet, _⟩ | ⟨_, hlast, _⟩
    · rw [hexit] at hquiet
      cases hquiet
    · omega
  have hle : s.exit ≤ i := by
    by_contra hgt
    have := hs.firing i (by omega) (by omega)
    rw [hi] at this
    cases this
  have hexit : s.exit = i := le_antisymm hle hge
  have hreason : s.reason = .signal := by
    rcases hs.closed with ⟨_, hr⟩ | ⟨hf, _, _⟩
    · exact hr
    · rw [hexit, hi] at hf
      cases hf
  obtain ⟨entry, exit, reason⟩ := s
  simp only at hexit hreason
  rw [hexit, hreason]

/-- A span that fires up to the last bar is left there. -/
theorem IsSpan.eq_of_last (hlen : signal.length = bars.length) (hs : IsSpan bars signal s)
    (hfire : Firing signal s.entry (i + 1)) (hlast : i + 1 = bars.length) :
    s = ⟨s.entry, i, .endOfData⟩ := by
  have hfires : signal[s.exit]? = some true := by
    have hlt : s.exit < signal.length := by
      rcases hs.closed with ⟨hf, _⟩ | ⟨hf, _, _⟩
      all_goals exact (List.getElem?_eq_some_iff.mp hf).1
    exact hfire s.exit (le_of_lt hs.forward) (by omega)
  rcases hs.closed with ⟨hf, _⟩ | ⟨_, hexit, hreason⟩
  · rw [hfires] at hf
    cases hf
  · obtain ⟨entry, exit, reason⟩ := s
    simp only at hexit hreason
    rw [hreason, show exit = i by omega]

/-! ## The walk -/

variable (bars signal) in
/-- What the walk finds from a bar on: the spans that are entered there or later, in order. -/
structure Walked (start : Nat) (hs : List (Holding α)) (spans : List Span) : Prop where
  bounds : List.Forall₂ (Span.Bounds bars) spans hs
  mem_iff : ∀ s, s ∈ spans ↔ IsSpan bars signal s ∧ start ≤ s.entry
  ordered : spans.Pairwise fun s t => s.exit < t.entry

theorem walked_end (hi : bars.length ≤ i) : Walked bars signal i [] [] := by
  refine ⟨.nil, fun s => ⟨fun h => by simp at h, ?_⟩, .nil⟩
  rintro ⟨hs, hle⟩
  have := hs.opening.canEnter.1
  omega

/-- Passing a bar at which no position is opened. -/
theorem Walked.skip {hs : List (Holding α)} {spans : List Span}
    (h : Walked bars signal (i + 1) hs spans) (hi : ¬ Opening bars signal i) :
    Walked bars signal i hs spans := by
  refine ⟨h.bounds, fun s => ?_, h.ordered⟩
  rw [h.mem_iff]
  constructor
  · rintro ⟨hs, hle⟩
    exact ⟨hs, by omega⟩
  · rintro ⟨hs, hle⟩
    refine ⟨hs, ?_⟩
    by_contra hlt
    exact hi ((show s.entry = i by omega) ▸ hs.opening)

/-- Leaving a position at a bar that does not fire. -/
theorem Walked.leave {hs : List (Holding α)} {spans : List Span} {b x : Bar α}
    (hlen : signal.length = bars.length) (he : Opening bars signal e) (hei : e < i)
    (hfire : Firing signal e i) (hi : signal[i]? = some false) (hb : bars[e]? = some b)
    (hx : bars[i]? = some x) (h : Walked bars signal (i + 1) hs spans) :
    Walked bars signal e (⟨b, x, .signal⟩ :: hs) (⟨e, i, .signal⟩ :: spans) := by
  refine ⟨.cons ⟨hb, hx, rfl⟩ h.bounds, fun s => ?_, List.pairwise_cons.mpr ⟨?_, h.ordered⟩⟩
  · rw [List.mem_cons, h.mem_iff]
    constructor
    · rintro (rfl | ⟨hs, hle⟩)
      · exact ⟨⟨he, hei, hfire, .inl ⟨hi, rfl⟩⟩, le_rfl⟩
      · exact ⟨hs, by omega⟩
    · rintro ⟨hs, hle⟩
      rcases Nat.lt_or_ge i s.entry with hlt | hge
      · exact .inr ⟨hs, hlt⟩
      -- a span that is entered at `e` is this one, and none is entered between `e` and `i`
      have hne : s.entry ≠ i := by
        intro heq
        have := hs.opening.fires
        rw [heq, hi] at this
        cases this
      by_cases heq : s.entry = e
      · left
        rw [← heq] at hfire
        rw [hs.eq_of_quiet hlen (by omega) hfire hi, heq]
      · exact absurd (hfire.right hge) (he.not_firing hs.opening (by omega))
  · intro t ht
    have := ((h.mem_iff t).mp ht).2
    exact this

theorem walked_force {b x : Bar α} (hlen : signal.length = bars.length)
    (he : Opening bars signal e) (hei : e < i) (hfire : Firing signal e (i + 1))
    (hlast : i + 1 = bars.length) (hb : bars[e]? = some b) (hx : bars[i]? = some x) :
    Walked bars signal e [⟨b, x, .endOfData⟩] [⟨e, i, .endOfData⟩] := by
  refine ⟨.cons ⟨hb, hx, rfl⟩ .nil, fun s => ?_, List.pairwise_singleton _ _⟩
  rw [List.mem_singleton]
  constructor
  · rintro rfl
    exact ⟨⟨he, hei, hfire.right (Nat.le_succ i), .inr ⟨hfire i (by omega) (by omega), hlast, rfl⟩⟩,
      le_rfl⟩
  · rintro ⟨hs, hle⟩
    have hlt : s.entry ≤ i := by
      have := hs.opening.canEnter.1
      omega
    by_cases heq : s.entry = e
    · rw [hs.eq_of_last hlen (hfire.left hle) hlast, heq]
    · exact absurd (hfire.right (by omega)) (he.not_firing hs.opening (by omega))

/-- The walk from each bar on, with no position open or with one that was opened at `e`. -/
theorem holdingsFrom_walked (hlen : signal.length = bars.length) (rest : List (Bar α × Bool)) :
    ∀ i, (bars.zip signal).drop i = rest →
      (Searching bars signal i → ∃ spans, Walked bars signal i (holdingsFrom none rest) spans) ∧
      (∀ e b, bars[e]? = some b → Opening bars signal e → e < i → Firing signal e i →
        i < bars.length → ∃ spans, Walked bars signal e (holdingsFrom (some b) rest) spans) := by
  induction rest with
  | nil =>
    intro i hdrop
    have hi : bars.length ≤ i := by
      have := congrArg List.length hdrop
      simp only [List.length_drop, List.length_zip, List.length_nil] at this
      omega
    exact ⟨fun _ => ⟨[], walked_end hi⟩, fun _ _ _ _ _ _ hlt => by omega⟩
  | cons p rest ih =>
    obtain ⟨x, fires⟩ := p
    intro i hdrop
    have hget : (bars.zip signal)[i]? = some (x, fires) := by
      rw [← List.head?_drop, hdrop, List.head?_cons]
    obtain ⟨hx, hf⟩ : bars[i]? = some x ∧ signal[i]? = some fires :=
      List.getElem?_zip_eq_some.mp hget
    have hrest : (bars.zip signal).drop (i + 1) = rest := by
      rw [← List.drop_drop, hdrop, List.drop_one, List.tail_cons]
    have hlast : rest.isEmpty = true ↔ i + 1 = bars.length := by
      have h := congrArg List.length hdrop
      simp only [List.length_drop, List.length_zip, List.length_cons] at h
      rw [List.isEmpty_iff_length_eq_zero]
      omega
    have hil : i < bars.length := (List.getElem?_eq_some_iff.mp hx).1
    obtain ⟨ihNone, ihSome⟩ := ih (i + 1) hrest
    constructor
    · intro hsearch
      rw [holdingsFrom]
      split_ifs with hcond
      · -- the position is opened here
        simp only [Bool.and_eq_true, Bool.not_eq_true', decide_eq_true_eq] at hcond
        obtain ⟨⟨rfl, hmore⟩, hpos⟩ := hcond
        have hnot : i + 1 ≠ bars.length := fun h => by simp [hlast.mpr h] at hmore
        have hopen : Opening bars signal i := ⟨hf, ⟨by omega, x, hx, hpos⟩, hsearch⟩
        refine ihSome i x hx hopen (by omega) ?_ (by omega)
        intro k hk hk'
        rw [show k = i by omega]
        exact hf
      · have hclosed : ¬ Opening bars signal i := by
          rintro ⟨hfire, ⟨hlt, y, hy, hpos⟩, _⟩
          rw [hf, Option.some.injEq] at hfire
          rw [hx, Option.some.injEq] at hy
          subst hfire hy
          have hmore : rest.isEmpty = false := by
            rw [Bool.eq_false_iff, ne_eq, hlast]
            omega
          apply hcond
          simp only [hmore, hpos, decide_true, Bool.not_false, Bool.and_self]
        obtain ⟨spans, hw⟩ := ihNone (hsearch.succ hclosed)
        exact ⟨spans, hw.skip hclosed⟩
    · intro e b hb hopen hei hfire _
      rw [holdingsFrom]
      cases fires with
      | false =>
        obtain ⟨spans, hw⟩ := ihNone (searching_of_quiet hf)
        exact ⟨_, hw.leave hlen hopen hei hfire hf hb hx⟩
      | true =>
        by_cases hend : rest.isEmpty = true
        · simp only [hend, Bool.not_true, if_true, if_false, Bool.false_eq_true]
          exact ⟨_, walked_force hlen hopen hei (hfire.snoc hf) (hlast.mp hend) hb hx⟩
        · simp only [hend, Bool.not_true, if_false, Bool.false_eq_true]
          have hnot : i + 1 ≠ bars.length := fun h => hend (hlast.mpr h)
          exact ihSome e b hb hopen (by omega) (hfire.snoc hf) (by omega)

/-! ## Spans of blocks -/

/-- A stretch of firing bars that ends in a block began in it. -/
theorem Block.le_of_firing {first stop : Nat} (hb : Block signal first stop)
    (hfire : Firing signal i k) (hfk : first ≤ k) : first ≤ i := by
  by_contra hlt
  rcases hb.left with h0 | hquiet
  · omega
  · have := hfire (first - 1) (by omega) (by omega)
    rw [hquiet] at this
    cases this

theorem Span.InBlock.isSpan {first stop : Nat} (hlen : signal.length = bars.length)
    (hb : Block signal first stop) (hs : s.InBlock bars first stop) : IsSpan bars signal s := by
  have hfire : ∀ {i j}, first ≤ i → j ≤ stop → Firing signal i j :=
    fun hi hj k hik hkj => hb.fires k (by omega) (by omega)
  obtain ⟨hle, hlt⟩ := hs.inside
  have hopen : Opening bars signal s.entry := by
    refine ⟨hb.fires _ hle hlt, hs.canEnter, fun j hj hfirej => ?_⟩
    exact hs.least j (hb.le_of_firing hfirej hle) hj
  rcases hs.closed with ⟨hstop, hexit, hreason⟩ | ⟨hstop, hexit, hreason⟩
  · refine ⟨hopen, by omega, hfire hle (by omega), .inl ⟨?_, hreason⟩⟩
    rw [hexit]
    rcases hb.right with h | h
    · omega
    · exact h
  · have := hs.canEnter.1
    refine ⟨hopen, by omega, hfire hle (by omega), .inr ⟨?_, by omega, hreason⟩⟩
    exact hb.fires _ (by omega) (by omega)

/-- Every bar that fires lies in a block whose beginning is the first bar of its stretch. -/
theorem exists_first (hi : signal[i]? = some true) :
    ∃ first, first ≤ i ∧ Firing signal first i ∧ (first = 0 ∨ signal[first - 1]? = some false) := by
  induction i with
  | zero => exact ⟨0, le_rfl, fun k _ hk => by omega, .inl rfl⟩
  | succ i ih =>
    have hlt : i < signal.length := by
      have := (List.getElem?_eq_some_iff.mp hi).1
      omega
    cases hb : signal[i] with
    | false =>
      refine ⟨i + 1, le_rfl, fun k _ hk => by omega, .inr ?_⟩
      rw [Nat.add_sub_cancel, List.getElem?_eq_getElem hlt, hb]
    | true =>
      have hi' : signal[i]? = some true := by rw [List.getElem?_eq_getElem hlt, hb]
      obtain ⟨first, hle, hfire, hleft⟩ := ih hi'
      exact ⟨first, by omega, hfire.snoc hi', hleft⟩

theorem IsSpan.exists_block (hlen : signal.length = bars.length) (hs : IsSpan bars signal s) :
    ∃ first stop, Block signal first stop ∧ s.InBlock bars first stop := by
  obtain ⟨first, hle, hfire, hleft⟩ := exists_first hs.opening.fires
  have hleast : ∀ i, first ≤ i → i < s.entry → ¬ CanEnter bars i :=
    fun i hi hlt => hs.opening.searching i hlt (hfire.left hi)
  -- the block fires up to the entry, and then up to the exit
  have hfires : ∀ i, first ≤ i → i < s.exit → signal[i]? = some true := by
    intro i hi hlt
    rcases Nat.lt_or_ge i s.entry with h | h
    · exact hfire i hi h
    · exact hs.firing i h hlt
  have hforward := hs.forward
  rcases hs.closed with ⟨hquiet, hreason⟩ | ⟨hlast, hend, hreason⟩
  · have hexit : s.exit < signal.length := (List.getElem?_eq_some_iff.mp hquiet).1
    exact ⟨first, s.exit, ⟨by omega, hfires, hleft, .inr hquiet⟩, ⟨hle, hforward⟩,
      hs.opening.canEnter, hleast, .inl ⟨by omega, rfl, hreason⟩⟩
  · refine ⟨first, signal.length, ⟨by omega, ?_, hleft, .inl rfl⟩, ⟨hle, by omega⟩,
      hs.opening.canEnter, hleast, .inr ⟨hlen, by omega, hreason⟩⟩
    intro i hi hlt
    by_cases h : i = s.exit
    · rw [h]
      exact hlast
    · exact hfires i hi (by omega)

theorem Block.exists_span {first stop : Nat} (hlen : signal.length = bars.length)
    (hb : Block signal first stop) (hcan : ∃ e, first ≤ e ∧ e < stop ∧ CanEnter bars e) :
    ∃ s : Span, s.InBlock bars first stop := by
  classical
  have hle : stop ≤ bars.length := by
    have := hb.fires (stop - 1) (by have := hb.nonempty; omega) (by have := hb.nonempty; omega)
    have := (List.getElem?_eq_some_iff.mp this).1
    omega
  obtain ⟨hfirst, hlt, hc⟩ := Nat.find_spec hcan
  have hleast : ∀ i, first ≤ i → i < Nat.find hcan → ¬ CanEnter bars i :=
    fun i hi h hci => Nat.find_min hcan h ⟨hi, by omega, hci⟩
  by_cases hstop : stop = bars.length
  · exact ⟨⟨Nat.find hcan, bars.length - 1, .endOfData⟩, ⟨hfirst, hlt⟩, hc, hleast,
      .inr ⟨hstop, rfl, rfl⟩⟩
  · exact ⟨⟨Nat.find hcan, stop, .signal⟩, ⟨hfirst, hlt⟩, hc, hleast,
      .inl ⟨by omega, rfl, rfl⟩⟩

theorem IsSpan.eq_of_entry {t : Span} (hlen : signal.length = bars.length)
    (hs : IsSpan bars signal s) (ht : IsSpan bars signal t) (he : s.entry = t.entry) : s = t := by
  have hfire : Firing signal s.entry t.exit := he ▸ ht.firing
  have hforward := ht.forward
  rcases ht.closed with ⟨hquiet, hreason⟩ | ⟨hlast, hend, hreason⟩
  · rw [hs.eq_of_quiet hlen (by omega) hfire hquiet, he, ← hreason]
  · rw [hs.eq_of_last hlen (hfire.snoc hlast) hend, he, ← hreason]

theorem Block.span_unique {first stop : Nat} {t : Span} (hlen : signal.length = bars.length)
    (hb : Block signal first stop) (hs : IsSpan bars signal s) (ht : IsSpan bars signal t)
    (hsb : first ≤ s.entry ∧ s.entry < stop) (htb : first ≤ t.entry ∧ t.entry < stop) : s = t := by
  have hfire : ∀ {i j}, first ≤ i → j < stop → Firing signal i j :=
    fun hi hj k hik hkj => hb.fires k (by omega) (by omega)
  rcases Nat.lt_trichotomy s.entry t.entry with hlt | heq | hgt
  · exact absurd (hfire hsb.1 htb.2) (hs.opening.not_firing ht.opening hlt)
  · exact hs.eq_of_entry hlen ht heq
  · exact absurd (hfire htb.1 hsb.2) (ht.opening.not_firing hs.opening hgt)

/-- A trade of the bars of a span is the trade of its holding. -/
theorem Span.Bounds.isTrade_iff {h : Holding α} {d : Direction} {t : Trade α}
    (hb : s.Bounds bars h) : s.IsTrade d bars t ↔ t = h.trade d := by
  constructor
  · rintro ⟨entry, exit, hentry, hexit, rfl⟩
    rw [hb.entry, Option.some.injEq] at hentry
    rw [hb.exit, Option.some.injEq] at hexit
    subst hentry hexit
    rw [hb.reason]
    rfl
  · rintro rfl
    refine ⟨h.entry, h.exit, hb.entry, hb.exit, ?_⟩
    rw [hb.reason]
    rfl

theorem forall₂_isTrade_iff {d : Direction} {spans : List Span} {hs : List (Holding α)}
    (hb : List.Forall₂ (Span.Bounds bars) spans hs) (trades : List (Trade α)) :
    List.Forall₂ (Span.IsTrade d bars) spans trades ↔ trades = hs.map (Holding.trade d) := by
  induction hb generalizing trades with
  | nil => simp
  | @cons s h spans hs hsh _ ih =>
    cases trades with
    | nil => simp
    | cons t trades => simp [hsh.isTrade_iff, ih]

/-- Some trade of the spans has no finite return if that of some holding has none. -/
theorem exists_not_finite_iff {d : Direction} {spans : List Span} {hs : List (Holding α)}
    (hb : List.Forall₂ (Span.Bounds bars) spans hs) :
    (∃ h ∈ hs, ¬ (h.trade d).HasFiniteReturn) ↔
      ∃ s ∈ spans, ∃ t, s.IsTrade d bars t ∧ ¬ t.HasFiniteReturn := by
  induction hb with
  | nil => simp
  | @cons s h spans hs hsh _ ih =>
    have hone : (∃ t, s.IsTrade d bars t ∧ ¬ t.HasFiniteReturn) ↔
        ¬ (h.trade d).HasFiniteReturn := by
      simp only [hsh.isTrade_iff, exists_eq_left]
    simp only [List.mem_cons, exists_eq_or_imp, hone, ih]

end

/-! ## The trades of a window -/

/-- What the spans of a window of bars under a signal are, and what they say of its simulation. -/
structure TradesOfBlocks (d : Direction) (bars : List (Bar α)) (signal : List Bool)
    (spans : List Span) : Prop where
  /-- The spans are those of the blocks. -/
  mem_iff : ∀ s, s ∈ spans ↔ ∃ first stop, Block signal first stop ∧ s.InBlock bars first stop
  /-- Each block that can be entered has one span. -/
  one : ∀ first stop, Block signal first stop →
    (∃ e, first ≤ e ∧ e < stop ∧ CanEnter bars e) →
      ∃! s, s ∈ spans ∧ first ≤ s.entry ∧ s.entry < stop
  /-- A position is left behind the bar at which it is opened. -/
  forward : ∀ s ∈ spans, s.entry < s.exit
  /-- The spans are in order, and no two of them share a bar. -/
  ordered : spans.Pairwise fun s t => s.exit < t.entry
  /-- All spans but the last end with the signal. -/
  forced_last : ∀ s ∈ spans.dropLast, s.reason = .signal
  /-- The simulation succeeds with the trades of the spans if all of them have a finite return. -/
  ok_iff : ∀ trades, simulate d bars signal = .ok trades ↔
    List.Forall₂ (Span.IsTrade d bars) spans trades ∧ ∀ t ∈ trades, t.HasFiniteReturn
  /-- The simulation fails if the trade of a span has no finite return. -/
  error_iff : (∃ bad, simulate d bars signal = .error bad) ↔
    ∃ s ∈ spans, ∃ t, s.IsTrade d bars t ∧ ¬ t.HasFiniteReturn

/-- A span behind which another one is entered ends with the signal. -/
theorem reason_of_ordered {bars : List (Bar α)} {signal : List Bool} {spans : List Span}
    (hspan : ∀ s ∈ spans, IsSpan bars signal s)
    (hord : spans.Pairwise fun s t => s.exit < t.entry) :
    ∀ s ∈ spans.dropLast, s.reason = .signal := by
  induction spans with
  | nil => simp
  | cons s spans ih =>
    obtain ⟨hs, hrest⟩ := List.pairwise_cons.mp hord
    cases spans with
    | nil => simp
    | cons t spans =>
      intro u hu
      rw [List.dropLast_cons_cons, List.mem_cons] at hu
      rcases hu with rfl | hu
      · -- another span is entered behind this one, so it does not end at the last bar
        have hlt := hs t (by simp)
        have hin := (hspan t (by simp)).opening.canEnter.1
        rcases (hspan u (by simp)).closed with ⟨_, hr⟩ | ⟨_, hl, _⟩
        · exact hr
        · omega
      · exact ih (fun x hx => hspan x (by simp [hx])) hrest u hu

/-- The trades of a simulation that succeeds, and the spans that they are of. -/
structure TradesOfSpans (d : Direction) (bars : List (Bar α)) (signal : List Bool) (spans : List Span)
    (trades : List (Trade α)) : Prop where
  isTrade : List.Forall₂ (Span.IsTrade d bars) spans trades
  isSpan : ∀ s ∈ spans, IsSpan bars signal s
  ordered : spans.Pairwise fun s t => s.exit < t.entry

theorem exists_tradesOfSpans {d : Direction} {bars : List (Bar α)} {signal : List Bool} {trades : List (Trade α)}
    (hlen : signal.length = bars.length) (hsim : simulate d bars signal = .ok trades) :
    ∃ spans, TradesOfSpans d bars signal spans trades := by
  obtain ⟨spans, hw⟩ := (holdingsFrom_walked hlen _ 0 rfl).1 fun j hj => absurd hj (Nat.not_lt_zero j)
  rw [List.drop_zero] at hw
  obtain ⟨htrades, -⟩ := simulate_eq_ok_iff.mp hsim
  exact ⟨spans, (forall₂_isTrade_iff hw.bounds trades).mpr htrades, fun s hs => ((hw.mem_iff s).mp hs).1, hw.ordered⟩

/-- **The trades are those of the blocks of the signal**, in order, one for each block that can be
entered; the simulation fails exactly if the return of one of these trades is not finite. -/
theorem simulate_blocks (d : Direction) (bars : List (Bar α)) (signal : List Bool)
    (hlen : signal.length = bars.length) :
    ∃ spans : List Span, TradesOfBlocks d bars signal spans := by
  obtain ⟨spans, hw⟩ := (holdingsFrom_walked hlen _ 0 rfl).1 fun j hj => absurd hj (Nat.not_lt_zero j)
  rw [List.drop_zero] at hw
  have hspan : ∀ s, s ∈ spans ↔ IsSpan bars signal s := by
    intro s
    rw [hw.mem_iff]
    exact and_iff_left (Nat.zero_le _)
  refine ⟨spans, fun s => ?_, ?_, fun s hs => ((hspan s).mp hs).forward, hw.ordered,
    reason_of_ordered (fun s hs => (hspan s).mp hs) hw.ordered, fun trades => ?_, ?_⟩
  · rw [hspan]
    exact ⟨fun hs => hs.exists_block hlen, fun ⟨_, _, hb, hs⟩ => hs.isSpan hlen hb⟩
  · intro first stop hb hcan
    obtain ⟨s, hs⟩ := hb.exists_span hlen hcan
    refine ⟨s, ⟨(hspan s).mpr (hs.isSpan hlen hb), hs.inside⟩, ?_⟩
    rintro t ⟨ht, htb⟩
    exact hb.span_unique hlen ((hspan t).mp ht) (hs.isSpan hlen hb) htb hs.inside
  · rw [simulate_eq_ok_iff, forall₂_isTrade_iff hw.bounds]
    rfl
  · rw [simulate_eq_error_iff, ← exists_not_finite_iff hw.bounds]
    rfl

/-- A block that begins with a close of zero, and one that runs to the end. -/
theorem simulate_blocks_zero_close :
    [true, true, false, true, true].length = (Bar.flatHistory [0, 2, 3, 4, 5]).length ∧
      ∃ spans, TradesOfBlocks .short (Bar.flatHistory [0, 2, 3, 4, 5])
        [true, true, false, true, true] spans :=
  ⟨rfl, simulate_blocks .short _ _ rfl⟩

end Backtest
