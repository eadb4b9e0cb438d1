import Mathlib.Data.Prod.Lex
import Mathlib.Tactic.FinCases
import Backtest.Market
import Backtest.Proofs.SoundRule

/-!
# The first defect is the one that is told

A candidate is read in stages (`Candidate.Stage`), and a condition in stages of its own
(`Candidate.ConditionStage`). Each stage is told here by itself: which members it reads, and what it finds wrong
with a candidate whatever stands in front of it or behind it (`Stage.defect?`). The order of the stages is
lexicographic: all stages of a condition come before those of the next one (`Stage.place`).

`PriceSource.validate_firstDefect`: a candidate is refused exactly if some stage fails, with the defect of the
earliest one that does (`Stage.FailsAt`). So nothing behind that stage counts: a candidate with the same members
up to there (`Stage.Agree`) is refused with the same message, for other tickers with prices as well, unless the
stage is the one that asks for them.

The reading itself stops at the first error of a chain of steps. So it is refused with the first defect in the list
of all stages that the candidate has: within a condition (`refusal?_condition`), through the list of conditions
(`refusal?_conditionsFrom`) and for the whole candidate (`refusal?_ofCandidate`). As this list is in ascending order
(`Stage.pairwise_all`), the first hit in it is the least stage that fails. What a stage finds depends on nothing but
what it reads (`Stage.defect?_congr`), and so does the fact that a stage fails first (`Stage.FailsAt.congr`).
-/

namespace Backtest

/-- Whether a value is an object. -/
def Json.isObject : Json → Bool
  | .obj _ => true
  | _ => false

namespace Candidate

/-! ## Stages and their order -/

/-- The checks of a condition, in their order. -/
inductive ConditionStage where
  | object
  | indicator
  | operator
  | value
  /-- A constant must be one that the left side can reach. -/
  | domain
  /-- A source must not be compared with itself. -/
  | comparison
  | leftParameters
  | rightParameters
  deriving DecidableEq

/-- The checks of a candidate, in their order. -/
inductive Stage where
  | object
  /-- The candidate must not report an error. -/
  | report
  | ticker
  | action
  /-- The conditions must be a list that is not empty. -/
  | conditions
  /-- A check of the condition of this index. -/
  | condition (index : ℕ) (stage : ConditionStage)
  | combination
  /-- There must be prices for the ticker. -/
  | resolution
  deriving DecidableEq

def ConditionStage.place : ConditionStage → ℕ
  | .object => 0
  | .indicator => 1
  | .operator => 2
  | .value => 3
  | .domain => 4
  | .comparison => 5
  | .leftParameters => 6
  | .rightParameters => 7

/-- All checks of a condition, in their order. -/
def ConditionStage.all : List ConditionStage :=
  [.object, .indicator, .operator, .value, .domain, .comparison, .leftParameters, .rightParameters]

instance : Preorder ConditionStage := Preorder.lift ConditionStage.place

instance : DecidableLT ConditionStage := fun p q => inferInstanceAs (Decidable (p.place < q.place))

instance : DecidableLE ConditionStage := fun p q => inferInstanceAs (Decidable (p.place ≤ q.place))

/-- The place of a stage: its number, for a condition followed by the index and the place in the condition. -/
def Stage.place : Stage → ℕ ×ₗ ℕ ×ₗ ℕ
  | .object => toLex (0, toLex (0, 0))
  | .report => toLex (1, toLex (0, 0))
  | .ticker => toLex (2, toLex (0, 0))
  | .action => toLex (3, toLex (0, 0))
  | .conditions => toLex (4, toLex (0, 0))
  | .condition index stage => toLex (5, toLex (index, stage.place))
  | .combination => toLex (6, toLex (0, 0))
  | .resolution => toLex (7, toLex (0, 0))

instance : Preorder Stage := Preorder.lift Stage.place

theorem ConditionStage.lt_iff {p q : ConditionStage} : p < q ↔ p.place < q.place := Iff.rfl

theorem ConditionStage.le_iff {p q : ConditionStage} : p ≤ q ↔ p.place ≤ q.place := Iff.rfl

theorem Stage.lt_iff {a b : Stage} : a < b ↔ a.place < b.place := Iff.rfl

theorem Stage.le_iff {a b : Stage} : a ≤ b ↔ a.place ≤ b.place := Iff.rfl

theorem Stage.condition_lt_condition {i j : ℕ} {p q : ConditionStage} :
    Stage.condition i p < .condition j q ↔ i < j ∨ i = j ∧ p < q := by
  simp [Stage.lt_iff, Stage.place, ConditionStage.lt_iff, Prod.Lex.toLex_lt_toLex]

theorem Stage.condition_le_condition {i j : ℕ} {p q : ConditionStage} :
    Stage.condition i p ≤ .condition j q ↔ i < j ∨ i = j ∧ p ≤ q := by
  simp [Stage.le_iff, Stage.place, ConditionStage.le_iff, Prod.Lex.toLex_le_toLex]

/-! ## What a stage finds -/

/-- The error that a step ends with. -/
def refusal? {ε α : Type} : Except ε α → Option ε
  | .error e => some e
  | .ok _ => none

theorem refusal?_eq_some {ε α : Type} {x : Except ε α} {e : ε} : refusal? x = some e ↔ x = .error e := by
  cases x <;> simp [refusal?]

/-- What a stage of a condition finds wrong. The stages behind the value have nothing to check as long as the sides
are not read. -/
def ConditionStage.defect? : ConditionStage → Json → Option ConditionDefect
  | .object, item => if item.isObject then none else some .notObject
  | .indicator, .obj members => refusal? (Candidate.left members)
  | .operator, .obj members => refusal? (Candidate.operator members)
  | .value, .obj members => refusal? (Candidate.value members)
  | .domain, .obj members =>
    match Candidate.left members, Candidate.value members with
    | .ok left, .ok right => refusal? (checkDomain left right)
    | _, _ => none
  | .comparison, .obj members =>
    match Candidate.left members, Candidate.value members with
    | .ok left, .ok right => refusal? (checkSelf left right)
    | _, _ => none
  | .leftParameters, .obj members =>
    match Candidate.left members with
    | .ok left => refusal? (checkParameters left)
    | _ => none
  | .rightParameters, .obj members =>
    match Candidate.value members with
    | .ok right => refusal? (checkOperand right)
    | _ => none
  | _, _ => none

/-- The items in the list of conditions. -/
def items (candidate : Json) : List Json :=
  match candidate.get? "conditions" with
  | some (.arr items) => items
  | _ => []

/-- What there is in the place of the conditions. -/
inductive Shape where
  | absent
  | notList
  | emptyList
  | list
  deriving DecidableEq

def Shape.of : Option Json → Shape
  | none | some .null => .absent
  | some (.arr []) => .emptyList
  | some (.arr (_ :: _)) => .list
  | some _ => .notList

/-- The defect of a shape that conditions cannot have. -/
def Shape.defect? : Shape → Option Defect
  | .absent => some .conditionsMissing
  | .notList => some .conditionsNotList
  | .emptyList => some .conditionsEmpty
  | .list => none

/-- What a stage finds wrong. -/
def Stage.defect? (resolves : String → Bool) : Stage → Json → Option Defect
  | .object, candidate => if candidate.isObject then none else some .notObject
  | .report, .obj members => refusal? (checkReport members)
  | .ticker, .obj members => refusal? (Candidate.ticker members)
  | .action, .obj members => refusal? (direction members)
  | .conditions, .obj members => (Shape.of (Json.find? members "conditions")).defect?
  | .condition index stage, candidate =>
    (items candidate)[index]?.bind fun item => (stage.defect? item).map (.condition index)
  | .combination, .obj members => refusal? (Candidate.combination members)
  | .resolution, .obj members =>
    match Candidate.ticker members with
    | .ok symbol => if resolves symbol then none else some (.unresolved symbol)
    | .error _ => none
  | _, _ => none

/-- A stage fails with a defect, and all stages in front of it pass. -/
structure Stage.FailsAt (stage : Stage) (resolves : String → Bool) (candidate : Json) (defect : Defect) : Prop where
  found : stage.defect? resolves candidate = some defect
  first : ∀ earlier, earlier < stage → earlier.defect? resolves candidate = none

/-! ## What a stage reads -/

/-- The members that a stage of a condition reads. -/
def ConditionStage.members : ConditionStage → List String
  | .object => []
  | .indicator | .leftParameters => ["indicator"]
  | .operator => ["operator"]
  | .value | .rightParameters => ["value"]
  | .domain | .comparison => ["indicator", "value"]

/-- Two values in which a stage of a condition reads the same. -/
def ConditionStage.Agrees (stage : ConditionStage) (item item' : Json) : Prop :=
  item.isObject = item'.isObject ∧ ∀ name ∈ stage.members, item.get? name = item'.get? name

/-- The members that a stage reads as a whole. -/
def Stage.members : Stage → List String
  | .report => ["error"]
  | .ticker | .resolution => ["ticker"]
  | .action => ["action"]
  | .combination => ["combination"]
  | .object | .conditions | .condition .. => []

/-- Two candidates in which a stage reads the same. Of the conditions, the stage that is about them reads what
they are, and a stage of one condition reads its members of this item. -/
def Stage.Agrees : Stage → Json → Json → Prop
  | .conditions, candidate, candidate' =>
    Shape.of (candidate.get? "conditions") = Shape.of (candidate'.get? "conditions")
  | .condition index stage, candidate, candidate' =>
    Option.Rel stage.Agrees (items candidate)[index]? (items candidate')[index]?
  | stage, candidate, candidate' =>
    candidate.isObject = candidate'.isObject ∧
      ∀ name ∈ stage.members, candidate.get? name = candidate'.get? name

/-- Two candidates with the same in all that is read up to a stage. -/
def Stage.AgreeUpTo (stage : Stage) (candidate candidate' : Json) : Prop :=
  ∀ earlier, earlier ≤ stage → earlier.Agrees candidate candidate'

/-! ## The stages in a list -/

/-- All stages of the conditions from an index on. -/
def Stage.ofConditions (index number : ℕ) : List Stage :=
  (List.range' index number).flatMap fun i => ConditionStage.all.map (Stage.condition i)

/-- All stages that a candidate has, in their order. -/
def Stage.all (candidate : Json) : List Stage :=
  [.object, .report, .ticker, .action] ++ (.conditions :: Stage.ofConditions 0 (items candidate).length) ++
    [.combination, .resolution]

theorem Stage.mem_ofConditions {stage : Stage} {number : ℕ} :
    stage ∈ Stage.ofConditions 0 number ↔ ∃ i < number, ∃ p, stage = .condition i p := by
  have hall : ∀ p : ConditionStage, p ∈ ConditionStage.all := by
    intro p
    cases p <;> decide
  simp only [ofConditions, List.mem_flatMap, List.mem_range'_1, Nat.zero_le, true_and, Nat.zero_add, List.mem_map]
  constructor
  · rintro ⟨i, hi, p, -, rfl⟩
    exact ⟨i, hi, p, rfl⟩
  · rintro ⟨i, hi, p, rfl⟩
    exact ⟨i, hi, p, hall p, rfl⟩

theorem Stage.pairwise_ofConditions (number : ℕ) : (Stage.ofConditions 0 number).Pairwise (· < ·) := by
  rw [ofConditions, List.pairwise_flatMap]
  constructor
  · intro i _
    rw [List.pairwise_map]
    have hall : ConditionStage.all.Pairwise (· < ·) := by decide
    exact hall.imp fun h => condition_lt_condition.mpr (.inr ⟨rfl, h⟩)
  · rw [← List.range_eq_range']
    refine List.pairwise_lt_range.imp ?_
    intro i j hij a ha b hb
    obtain ⟨p, -, rfl⟩ := List.mem_map.mp ha
    obtain ⟨q, -, rfl⟩ := List.mem_map.mp hb
    exact condition_lt_condition.mpr (.inl hij)

theorem Stage.pairwise_all (candidate : Json) : (Stage.all candidate).Pairwise (· < ·) := by
  rw [all, List.pairwise_append, List.pairwise_append]
  refine ⟨⟨by decide, List.pairwise_cons.mpr ⟨?_, pairwise_ofConditions _⟩, ?_⟩, by decide, ?_⟩
  · intro b hb
    obtain ⟨i, -, p, rfl⟩ := mem_ofConditions.mp hb
    simp [lt_iff, place, Prod.Lex.toLex_lt_toLex]
  · intro a ha b hb
    rcases List.mem_cons.mp hb with rfl | hb
    · fin_cases ha <;> decide
    · obtain ⟨i, -, p, rfl⟩ := mem_ofConditions.mp hb
      fin_cases ha <;> simp [lt_iff, place, Prod.Lex.toLex_lt_toLex]
  · intro a ha b hb
    rcases List.mem_append.mp ha with ha | ha
    · fin_cases ha <;> fin_cases hb <;> decide
    · rcases List.mem_cons.mp ha with rfl | ha
      · fin_cases hb <;> decide
      · obtain ⟨i, -, p, rfl⟩ := mem_ofConditions.mp ha
        fin_cases hb <;> simp [lt_iff, place, Prod.Lex.toLex_lt_toLex]

/-- In a list in ascending order that has all that counts, the first hit is the least one. -/
theorem findSome?_eq_some_iff_of_pairwise {ι β : Type} [Preorder ι] {l : List ι} {f : ι → Option β} {b : β}
    (hsorted : l.Pairwise (· < ·)) (hall : ∀ i, i ∉ l → f i = none) :
    l.findSome? f = some b ↔ ∃ i, f i = some b ∧ ∀ j, j < i → f j = none := by
  rw [List.findSome?_eq_some_iff]
  constructor
  · rintro ⟨front, i, back, rfl, hi, hfront⟩
    refine ⟨i, hi, fun j hj => ?_⟩
    by_cases hmem : j ∈ front
    · exact hfront j hmem
    · apply hall
      have hback := (List.pairwise_cons.mp (List.pairwise_append.mp hsorted).2.1).1
      rw [List.mem_append, List.mem_cons, not_or, not_or]
      exact ⟨hmem, hj.ne, fun h => lt_asymm hj (hback j h)⟩
  · rintro ⟨i, hi, hfirst⟩
    have hmem : i ∈ l := by
      by_contra h
      rw [hall i h] at hi
      cases hi
    obtain ⟨front, back, rfl⟩ := List.append_of_mem hmem
    refine ⟨front, i, back, rfl, hi, fun j hj => hfirst j ?_⟩
    exact (List.pairwise_append.mp hsorted).2.2 j hj i List.mem_cons_self

/-! ## Reading in stages -/

/-- A condition is refused with the first defect that its stages find. -/
theorem refusal?_condition (item : Json) :
    refusal? (condition item) = ConditionStage.all.findSome? (·.defect? item) := by
  cases item with
  | null | bool | num | str | arr => rfl
  | obj members =>
    rw [condition]
    simp only [ConditionStage.all, List.findSome?_cons, List.findSome?_nil, ConditionStage.defect?, Json.isObject,
      if_true]
    rcases Candidate.left members with _ | left
    · rfl
    rcases Candidate.operator members with _ | operator
    · rfl
    rcases Candidate.value members with _ | right
    · rfl
    dsimp only [bind, Except.bind, refusal?]
    rcases checkDomain left right with _ | ⟨⟨⟩⟩
    · rfl
    rcases checkSelf left right with _ | ⟨⟨⟩⟩
    · rfl
    rcases checkParameters left with _ | ⟨⟨⟩⟩
    · rfl
    rcases checkOperand right with _ | ⟨⟨⟩⟩
    · rfl
    rfl

/-- So are the conditions from an index on. -/
theorem refusal?_conditionsFrom (resolves : String → Bool) (candidate : Json) {rest : List Json} :
    ∀ {index : ℕ}, (items candidate).drop index = rest →
      refusal? (conditionsFrom index rest) =
        (Stage.ofConditions index rest.length).findSome? (·.defect? resolves candidate) := by
  induction rest with
  | nil => exact fun _ => rfl
  | cons item rest ih =>
    intro index hdrop
    have hitem : (items candidate)[index]? = some item := by
      rw [← List.head?_drop, hdrop, List.head?_cons]
    have hrest : (items candidate).drop (index + 1) = rest := by
      rw [← List.tail_drop, hdrop, List.tail_cons]
    have hstage : ∀ p : ConditionStage, (Stage.condition index p).defect? resolves candidate =
        (p.defect? item).map (.condition index) := by
      intro p
      rw [Stage.defect?, hitem, Option.bind_some]
    have hhere : (ConditionStage.all.map (Stage.condition index)).findSome? (·.defect? resolves candidate) =
        (refusal? (condition item)).map (.condition index) := by
      rw [refusal?_condition, List.findSome?_map, List.map_findSome?]
      exact congrArg (List.findSome? · _) (funext hstage)
    rw [Stage.ofConditions, List.length_cons, List.range'_succ, List.flatMap_cons, List.findSome?_append, hhere,
      ← Stage.ofConditions, ← ih hrest, conditionsFrom]
    rcases condition item with e | c
    · rfl
    · rcases conditionsFrom (index + 1) rest with _ | _ <;> rfl

theorem refusal?_conditions (resolves : String → Bool) (members : Members) :
    refusal? (conditions members) =
      (Stage.conditions :: Stage.ofConditions 0 (items (.obj members)).length).findSome?
        (·.defect? resolves (.obj members)) := by
  rw [List.findSome?_cons, ← refusal?_conditionsFrom resolves (.obj members) List.drop_zero]
  simp only [Stage.defect?, conditions, present?, items, Json.get?]
  rcases Json.find? members "conditions" with _ | _ | _ | _ | _ | (_ | ⟨item, rest⟩) | _ <;> rfl

/-- A candidate is refused with the first defect that its stages find. -/
theorem refusal?_ofCandidate (resolves : String → Bool) (candidate : Json) :
    refusal? (Rule.ofCandidate resolves candidate) =
      (Stage.all candidate).findSome? (·.defect? resolves candidate) := by
  cases candidate with
  | null | bool | num | str | arr => rfl
  | obj members =>
    rw [Rule.ofCandidate, Stage.all, List.findSome?_append, List.findSome?_append, ← refusal?_conditions]
    simp only [List.findSome?_cons, List.findSome?_nil, Stage.defect?, Json.isObject, if_true]
    rcases checkReport members with _ | ⟨⟨⟩⟩
    · rfl
    rcases Candidate.ticker members with _ | ticker
    · rfl
    rcases direction members with _ | direction
    · rfl
    rcases conditions members with _ | conditions
    · rfl
    rcases Candidate.combination members with _ | combination
    · rfl
    dsimp only [bind, Except.bind, refusal?]
    cases resolves ticker <;> rfl

/-- No stage that a candidate does not have finds anything. -/
theorem Stage.defect?_of_not_mem {resolves : String → Bool} {candidate : Json} {stage : Stage}
    (h : stage ∉ Stage.all candidate) : stage.defect? resolves candidate = none := by
  cases stage with
  | condition i p =>
    have hi : (items candidate).length ≤ i := by
      by_contra hlt
      refine h (List.mem_append_left _ (List.mem_append_right _ (List.mem_cons_of_mem _ ?_)))
      exact mem_ofConditions.mpr ⟨i, not_le.mp hlt, p, rfl⟩
    rw [defect?, List.getElem?_eq_none hi, Option.bind_none]
  | object | report | ticker | action | conditions | combination | resolution => simp [all] at h

theorem ofCandidate_eq_error_iff {resolves : String → Bool} {candidate : Json} {defect : Defect} :
    Rule.ofCandidate resolves candidate = .error defect ↔ ∃ stage : Stage, stage.FailsAt resolves candidate defect := by
  rw [← refusal?_eq_some, refusal?_ofCandidate,
    findSome?_eq_some_iff_of_pairwise (Stage.pairwise_all candidate) fun _ => Stage.defect?_of_not_mem]
  exact exists_congr fun stage => ⟨fun h => ⟨h.1, h.2⟩, fun h => ⟨h.found, h.first⟩⟩

/-! ## Candidates with the same beginning -/

section

variable {members members' : Members}

theorem left_congr (h : Json.find? members "indicator" = Json.find? members' "indicator") :
    Candidate.left members = Candidate.left members' := by
  simp only [Candidate.left, stringMember, present?, h]

theorem operator_congr (h : Json.find? members "operator" = Json.find? members' "operator") :
    Candidate.operator members = Candidate.operator members' := by
  simp only [Candidate.operator, stringMember, present?, h]

theorem value_congr (h : Json.find? members "value" = Json.find? members' "value") :
    Candidate.value members = Candidate.value members' := by
  simp only [Candidate.value, present?, h]

end

theorem exists_members {v : Json} (h : v.isObject = true) : ∃ members, v = .obj members := by
  cases v with
  | obj members => exact ⟨members, rfl⟩
  | null | bool | num | str | arr => cases h

/-- In what is no object, nothing else is looked for. -/
theorem ConditionStage.defect?_of_not_object {item : Json} (h : item.isObject = false) (stage : ConditionStage) :
    stage.defect? item = if stage = .object then some .notObject else none := by
  cases item with
  | obj members => cases h
  | null | bool | num | str | arr => cases stage <;> rfl

theorem Stage.defect?_of_not_object {resolves : String → Bool} {candidate : Json} (h : candidate.isObject = false)
    (stage : Stage) : stage.defect? resolves candidate = if stage = .object then some .notObject else none := by
  cases candidate with
  | obj members => cases h
  | null | bool | num | str | arr => cases stage <;> rfl

/-- A stage of a condition finds the same where it reads the same. -/
theorem ConditionStage.defect?_congr {stage : ConditionStage} {item item' : Json} (h : stage.Agrees item item') :
    stage.defect? item = stage.defect? item' := by
  obtain ⟨hobject, hmembers⟩ := h
  cases hitem : item.isObject with
  | false => rw [defect?_of_not_object hitem, defect?_of_not_object (hobject ▸ hitem)]
  | true =>
    obtain ⟨members, rfl⟩ := exists_members hitem
    obtain ⟨members', rfl⟩ := exists_members (hobject ▸ hitem)
    cases stage with
    | object => rfl
    | indicator => simp only [defect?, left_congr (hmembers "indicator" (by decide))]
    | operator => simp only [defect?, operator_congr (hmembers "operator" (by decide))]
    | value => simp only [defect?, value_congr (hmembers "value" (by decide))]
    | domain | comparison =>
      simp only [defect?, left_congr (hmembers "indicator" (by decide)), value_congr (hmembers "value" (by decide))]
    | leftParameters => simp only [defect?, left_congr (hmembers "indicator" (by decide))]
    | rightParameters => simp only [defect?, value_congr (hmembers "value" (by decide))]

/-- A stage finds the same in two objects where it reads the same. Only the last stage asks what tickers there are. -/
theorem Stage.defect?_congr {resolves resolves' : String → Bool} {candidate candidate' : Json} {stage : Stage}
    (hobject : candidate.isObject = candidate'.isObject) (h : stage.Agrees candidate candidate')
    (hresolves : stage = .resolution → resolves' = resolves) :
    stage.defect? resolves candidate = stage.defect? resolves' candidate' := by
  cases hcandidate : candidate.isObject with
  | false => rw [defect?_of_not_object hcandidate, defect?_of_not_object (hobject ▸ hcandidate)]
  | true =>
    obtain ⟨members, rfl⟩ := exists_members hcandidate
    obtain ⟨members', rfl⟩ := exists_members (hobject ▸ hcandidate)
    have hfind : ∀ name ∈ stage.members, Json.find? members name = Json.find? members' name := by
      cases stage with
      | conditions | condition => exact fun name hname => nomatch hname
      | object | report | ticker | action | combination | resolution => exact h.2
    cases stage with
    | object => rfl
    | report => simp only [defect?, checkReport, hfind "error" (by decide)]
    | ticker => simp only [defect?, Candidate.ticker, present?, hfind "ticker" (by decide)]
    | action => simp only [defect?, direction, present?, hfind "action" (by decide)]
    | conditions => exact congrArg Shape.defect? h
    | condition index stage =>
      simp only [defect?]
      have hitem : Option.Rel stage.Agrees (items (.obj members))[index]? (items (.obj members'))[index]? := h
      generalize (items (.obj members))[index]? = item at hitem
      generalize (items (.obj members'))[index]? = item' at hitem
      cases hitem with
      | none => rfl
      | some hagrees => rw [Option.bind_some, Option.bind_some, ConditionStage.defect?_congr hagrees]
    | combination => simp only [defect?, Candidate.combination, present?, hfind "combination" (by decide)]
    | resolution =>
      simp only [defect?, Candidate.ticker, present?, hfind "ticker" (by decide), hresolves rfl]

theorem Stage.object_le (stage : Stage) : Stage.object ≤ stage := by
  cases stage with
  | condition index p =>
    have hlt : Stage.object < .condition index p := by simp [lt_iff, place, Prod.Lex.toLex_lt_toLex]
    exact hlt.le
  | object | report | ticker | action | conditions | combination | resolution => decide

theorem Stage.not_resolution_lt (stage : Stage) : ¬ Stage.resolution < stage := by
  cases stage with
  | condition index p => simp [lt_iff, place, Prod.Lex.toLex_lt_toLex]
  | object | report | ticker | action | conditions | combination | resolution => decide

/-- The first stage that fails is the same for all candidates that agree up to there. -/
theorem Stage.FailsAt.congr {resolves resolves' : String → Bool} {candidate candidate' : Json} {stage : Stage}
    {defect : Defect} (h : stage.FailsAt resolves candidate defect) (hagree : stage.AgreeUpTo candidate candidate')
    (hresolves : stage = .resolution → resolves' = resolves) : stage.FailsAt resolves' candidate' defect := by
  have hobject : candidate.isObject = candidate'.isObject := (hagree .object stage.object_le).1
  constructor
  · rw [← defect?_congr hobject (hagree stage le_rfl) hresolves]
    exact h.found
  · intro earlier hlt
    rw [← defect?_congr hobject (hagree earlier hlt.le) fun heq => absurd (heq ▸ hlt) stage.not_resolution_lt]
    exact h.first earlier hlt

end Candidate

theorem PriceSource.validate_eq_error_iff {σ : Type} {source : PriceSource σ} {s : σ} {candidate : Json}
    {failure : Failure} : source.validate s candidate = .error failure ↔
      ∃ (stage : Candidate.Stage) (defect : Defect),
        stage.FailsAt (source.resolves s) candidate defect ∧ failure = .malformed defect.message := by
  rw [exists_comm]
  simp only [exists_and_right, ← Candidate.ofCandidate_eq_error_iff, validate]
  cases Rule.ofCandidate (source.resolves s) candidate with
  | ok rule => simp
  | error defect => simp [Failure.ofDefect, eq_comm]

/-- **The first defect wins.** A candidate is refused exactly if one of its stages fails, as malformed and with
the message of the defect that the earliest failing stage finds. Every other candidate that has the same in all
that is read up to this stage is refused with the same message, whatever else it has and whatever tickers have
prices there; if the stage is the one that asks for the prices, they must be the same. -/
theorem PriceSource.validate_firstDefect {σ τ : Type} (source : PriceSource σ) (s : σ) (candidate : Json) :
    (∀ failure, source.validate s candidate = .error failure ↔
      ∃ (stage : Candidate.Stage) (defect : Defect),
        stage.FailsAt (source.resolves s) candidate defect ∧ failure = .malformed defect.message) ∧
    ∀ (stage : Candidate.Stage) (defect : Defect), stage.FailsAt (source.resolves s) candidate defect →
      ∀ (source' : PriceSource τ) (s' : τ) (candidate' : Json), stage.AgreeUpTo candidate candidate' →
        (stage = .resolution → source'.resolves s' = source.resolves s) →
          source'.validate s' candidate' = .error (.malformed defect.message) := by
  refine ⟨fun failure => validate_eq_error_iff, ?_⟩
  intro stage defect hfails source' s' candidate' hagree hresolves
  exact validate_eq_error_iff.mpr ⟨stage, defect, hfails.congr hagree hresolves, rfl⟩

/-- A candidate with an operator that there is not, in its second condition. -/
def Candidate.unknownOperator (value : Json) (more : List Json) (combination : Json) : Json :=
  .obj [("ticker", .str "acme"), ("action", .arr [.str "buy", .str "long"]),
    ("conditions", .arr
      (.obj [("indicator", .str "sma(2)"), ("operator", .str ">"), ("value", .str "price")] ::
        .obj [("indicator", .str "price"), ("operator", .str "above"), ("value", value)] :: more)),
    ("combination", combination)]

/-- A source that knows all tickers or none, and has no prices. -/
def PriceSource.blank (known : Bool) : PriceSource Unit where
  resolves _ _ := known
  fetch s ticker _ := (.error (.unresolvable ticker "no prices"), s)

/-- What stands behind the operator is wrong as well in the second candidate: the value of the condition, another
condition, and the combination; and its ticker is not known. It is refused as the first one. -/
theorem PriceSource.validate_firstDefect_unknownOperator :
    (Candidate.Stage.condition 1 .operator).FailsAt ((blank true).resolves ())
        (Candidate.unknownOperator (.num (.whole 5)) [] (.str "any")) (.condition 1 (.unknownOperator "above")) ∧
      (Candidate.Stage.condition 1 .operator).AgreeUpTo
        (Candidate.unknownOperator (.num (.whole 5)) [] (.str "any"))
        (Candidate.unknownOperator .null [.null] (.bool true)) ∧
      (blank false).validate () (Candidate.unknownOperator .null [.null] (.bool true)) =
        .error (.malformed "condition 1: unknown operator token 'above'") := by
  have hfails : (Candidate.Stage.condition 1 .operator).FailsAt ((blank true).resolves ())
      (Candidate.unknownOperator (.num (.whole 5)) [] (.str "any")) (.condition 1 (.unknownOperator "above")) := by
    refine ⟨rfl, fun earlier hlt => ?_⟩
    cases earlier with
    | object | report | ticker | action | conditions => rfl
    | combination | resolution => exact absurd hlt (by decide)
    | condition i p =>
      rcases Candidate.Stage.condition_lt_condition.mp hlt with hi | ⟨rfl, hp⟩
      · obtain rfl : i = 0 := by omega
        cases p <;> rfl
      · cases p <;> first | rfl | exact absurd hp (by decide)
  have hagree : (Candidate.Stage.condition 1 .operator).AgreeUpTo
      (Candidate.unknownOperator (.num (.whole 5)) [] (.str "any"))
      (Candidate.unknownOperator .null [.null] (.bool true)) := by
    intro earlier hle
    cases earlier with
    | object => exact ⟨rfl, nofun⟩
    | report | ticker | action => exact ⟨rfl, List.forall_mem_singleton.mpr rfl⟩
    | conditions => rfl
    | combination | resolution => exact absurd hle (by decide)
    | condition i p =>
      rcases Candidate.Stage.condition_le_condition.mp hle with hi | ⟨rfl, hp⟩
      · obtain rfl : i = 0 := by omega
        exact .some ⟨rfl, fun _ _ => rfl⟩
      · cases p with
        | object => exact .some ⟨rfl, nofun⟩
        | indicator | operator => exact .some ⟨rfl, List.forall_mem_singleton.mpr rfl⟩
        | value | domain | comparison | leftParameters | rightParameters => exact absurd hp (by decide)
  exact ⟨hfails, hagree, (validate_firstDefect (blank true) () _).2 _ _ hfails (blank false) () _ hagree nofun⟩

end Backtest
