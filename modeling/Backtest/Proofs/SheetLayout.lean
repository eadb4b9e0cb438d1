import Mathlib.Data.List.Perm.Basic
import Backtest.PriceDirectory
import Backtest.Proofs.Equity
import Backtest.Proofs.SoundRule

/-!
# The layout of a sheet

The bars of a sheet depend on what stands below each name and on nothing else. `ofRows_eq_ok_iff` says which bars the
records of a sheet are, `isSorting_mergeSort` in which order they come out, and `ofSheet_eq_ok_iff` puts both below a
header. From these, `ofSheet_columnsAt` reads a sheet whose columns stand at other places, with others among them or
without, and `ofSheet_perm` one whose records stand in another order. `ofSheet_layout` has all of it, and
`PriceDirectory.fetch_eq_ok_iff` says that the bars of a ticker are those of its sheet.

Two columns of one name may not change places, as the first of them is read.
-/

namespace Backtest

namespace Bar

/-! ## The columns -/

/-- A header names a column at a place, whatever its case and the blanks around it. -/
def Column.IsNamedAt (c : Column) (header : List String) (k : Nat) : Prop :=
  (header.map Text.folded)[k]? = some c.text

instance (c : Column) (header : List String) (k : Nat) : Decidable (c.IsNamedAt header k) :=
  inferInstanceAs (Decidable (_ = _))

/-- A column stands where a header names it first. -/
def Column.StandsAt (c : Column) (header : List String) (k : Nat) : Prop :=
  c.IsNamedAt header k ∧ ∀ j < k, ¬ c.IsNamedAt header j

section

variable {c : Column} {header : List String} {k : Nat}

theorem Column.IsNamedAt.lt_length (h : c.IsNamedAt header k) : k < header.length := by
  obtain ⟨hk, -⟩ := List.getElem?_eq_some_iff.mp h
  rwa [List.length_map] at hk

theorem Column.isNamedAt_iff (hk : k < header.length) :
    c.IsNamedAt header k ↔ (Text.folded header[k] == c.text) = true := by
  rw [Column.IsNamedAt, List.getElem?_map, List.getElem?_eq_getElem hk]
  simp

theorem Column.index?_eq_some_iff : c.index? header = some k ↔ c.StandsAt header k := by
  rw [Column.index?, List.findIdx?_eq_some_iff_getElem]
  constructor
  · rintro ⟨hk, hname, hfirst⟩
    refine ⟨(Column.isNamedAt_iff hk).mpr hname, fun j hj hnamed => hfirst j hj ?_⟩
    exact (Column.isNamedAt_iff (hj.trans hk)).mp hnamed
  · rintro ⟨hnamed, hfirst⟩
    have hk := hnamed.lt_length
    refine ⟨hk, (Column.isNamedAt_iff hk).mp hnamed, fun j hj hname => hfirst j hj ?_⟩
    exact (Column.isNamedAt_iff (hj.trans hk)).mpr hname

end

/-- Columns stand where the header of a sheet says. -/
def Columns.AreOf (l : Columns) (header : List String) : Prop :=
  ∀ c : Column, c.StandsAt header (l.index c)

/-- A column is found where it stands. -/
theorem Column.find_eq_ok_iff {c : Column} {header : List String} {k : Nat} :
    (match c.index? header with
      | some k => Except.ok k
      | none => .error (SheetFault.noColumn c)) = .ok k ↔ c.StandsAt header k := by
  rw [← Column.index?_eq_some_iff]
  cases c.index? header <;> simp

theorem Columns.ofHeader_eq_ok_iff {header : List String} {l : Columns} :
    Columns.ofHeader header = .ok l ↔ l.AreOf header := by
  simp only [Columns.ofHeader, bind_eq_ok]
  constructor
  · rintro ⟨_, hdate, _, hopen, _, hhigh, _, hlow, _, hclose, _, hvolume, h⟩
    obtain rfl := Except.ok.inj h
    intro c
    cases c with
    | date => exact Column.find_eq_ok_iff.mp hdate
    | openPrice => exact Column.find_eq_ok_iff.mp hopen
    | high => exact Column.find_eq_ok_iff.mp hhigh
    | low => exact Column.find_eq_ok_iff.mp hlow
    | close => exact Column.find_eq_ok_iff.mp hclose
    | volume => exact Column.find_eq_ok_iff.mp hvolume
  · intro h
    have hfind (c : Column) := Column.find_eq_ok_iff.mpr (h c)
    exact ⟨_, hfind .date, _, hfind .openPrice, _, hfind .high, _, hfind .low, _, hfind .close, _, hfind .volume, rfl⟩

theorem Columns.exists_index {P : Column → Nat → Prop} (h : ∀ c, ∃ k, P c k) :
    ∃ l : Columns, ∀ c, P c (l.index c) := by
  choose place hplace using h
  refine ⟨⟨place .date, place .openPrice, place .high, place .low, place .close, place .volume⟩, fun c => ?_⟩
  cases c <;> exact hplace _

/-! ## The records -/

/-- A record of a session with trading: none of its five numbers is missing. -/
def isTraded (l : Columns) (record : List String) : Bool :=
  !Column.numbers.any fun c => isMissing (l.field record c)

/-- A bar that a record says. -/
structure IsRead (l : Columns) (record : List String) (b : Bar Float) : Prop where
  date : readDate (l.field record .date) = .ok b.date
  openPrice : Decimal.readFloat (l.field record .openPrice).toList = .ok b.openPrice
  high : Decimal.readFloat (l.field record .high).toList = .ok b.high
  low : Decimal.readFloat (l.field record .low).toList = .ok b.low
  close : Decimal.readFloat (l.field record .close).toList = .ok b.close
  volume : Decimal.readFloat (l.field record .volume).toList = .ok b.volume

/-- The day of a record. -/
def dayOf (l : Columns) (row : Nat) (record : List String) : Except SheetFault Date :=
  match readDate (l.field record .date) with
  | .ok day => .ok day
  | .error fault => .error (.badDate row (l.field record .date) fault)

/-- A number of a record. -/
def numberOf (l : Columns) (row : Nat) (record : List String) (c : Column) : Except SheetFault Float :=
  match Decimal.readFloat (l.field record c).toList with
  | .ok x => .ok x
  | .error fault => .error (.badNumber row c (l.field record c) fault)

theorem dayOf_eq_ok_iff {l : Columns} {row : Nat} {record : List String} {day : Date} :
    dayOf l row record = .ok day ↔ readDate (l.field record .date) = .ok day := by
  rw [dayOf]
  cases readDate (l.field record .date) <;> simp

theorem numberOf_eq_ok_iff {l : Columns} {row : Nat} {record : List String} {c : Column} {x : Float} :
    numberOf l row record c = .ok x ↔ Decimal.readFloat (l.field record c).toList = .ok x := by
  rw [numberOf]
  cases Decimal.readFloat (l.field record c).toList <;> simp

theorem ofFields?_eq (l : Columns) (row : Nat) (record : List String) :
    ofFields? l row record =
      if isTraded l record then do
        let day ← dayOf l row record
        return some ⟨day, ← numberOf l row record .openPrice, ← numberOf l row record .high,
          ← numberOf l row record .low, ← numberOf l row record .close, ← numberOf l row record .volume⟩
      else .ok none := by
  cases htraded : isTraded l record with
  | false =>
    have hmissing : (Column.numbers.any fun c => isMissing (l.field record c)) = true := by
      simpa [isTraded] using htraded
    simp only [ofFields?, hmissing, if_true, Bool.false_eq_true, if_false]
    rfl
  | true =>
    have hmissing : (Column.numbers.any fun c => isMissing (l.field record c)) = false := by
      simpa [isTraded] using htraded
    simp only [ofFields?, hmissing, if_true, Bool.false_eq_true, if_false, dayOf, numberOf]
    generalize Decimal.readFloat (l.field record .openPrice).toList = openPrice
    generalize Decimal.readFloat (l.field record .high).toList = high
    generalize Decimal.readFloat (l.field record .low).toList = low
    generalize Decimal.readFloat (l.field record .close).toList = close
    generalize Decimal.readFloat (l.field record .volume).toList = volume
    cases readDate (l.field record .date) <;> rfl

/-- A record is passed over if there was no trading, and is a bar otherwise. -/
theorem ofFields?_eq_ok_iff {l : Columns} {row : Nat} {record : List String} {found : Option (Bar Float)} :
    ofFields? l row record = .ok found ↔
      isTraded l record = false ∧ found = none ∨
        isTraded l record = true ∧ ∃ b, found = some b ∧ IsRead l record b := by
  rw [ofFields?_eq]
  cases htraded : isTraded l record with
  | false =>
    rw [if_neg Bool.false_ne_true, Except.ok.injEq, eq_comm]
    simp
  | true =>
    simp only [if_true, bind_eq_ok, dayOf_eq_ok_iff, numberOf_eq_ok_iff]
    constructor
    · rintro ⟨_, hdate, _, hopen, _, hhigh, _, hlow, _, hclose, _, hvolume, h⟩
      exact .inr ⟨trivial, _, (Except.ok.inj h).symm, hdate, hopen, hhigh, hlow, hclose, hvolume⟩
    · rintro (⟨h, -⟩ | ⟨-, b, rfl, hread⟩)
      · exact absurd h Bool.true_eq_false.mp
      · exact ⟨_, hread.date, _, hread.openPrice, _, hread.high, _, hread.low, _, hread.close, _, hread.volume, rfl⟩

/-- The rows of a sheet that is read are records, of which each one with trading says a bar. -/
theorem ofRows_eq_ok_iff {l : Columns} {rows : List (Except Csv.Uneven (List String))} :
    ∀ {row : Nat} {bars : List (Bar Float)}, ofRows l row rows = .ok bars ↔
      ∃ records : List (List String), rows = records.map .ok ∧
        List.Forall₂ (IsRead l) (records.filter (isTraded l)) bars := by
  induction rows with
  | nil =>
    intro row bars
    constructor
    · intro h
      obtain rfl := Except.ok.inj h
      exact ⟨[], rfl, .nil⟩
    · rintro ⟨records, hrows, hread⟩
      obtain rfl := List.map_eq_nil_iff.mp hrows.symm
      cases hread
      rfl
  | cons first rows ih =>
    intro row bars
    cases first with
    | error uneven =>
      refine ⟨nofun, ?_⟩
      rintro ⟨records, hrows, -⟩
      cases records <;> simp at hrows
    | ok record =>
      simp only [ofRows, bind_eq_ok, ofFields?_eq_ok_iff]
      constructor
      · rintro ⟨found, ⟨htraded, rfl⟩ | ⟨htraded, b, rfl, hread⟩, h⟩
        · obtain ⟨records, rfl, hrecords⟩ := ih.mp h
          refine ⟨record :: records, rfl, ?_⟩
          rwa [List.filter_cons_of_neg (by simp [htraded])]
        · obtain ⟨rest, hrest, h⟩ := bind_eq_ok.mp h
          obtain rfl := Except.ok.inj h
          obtain ⟨records, rfl, hrecords⟩ := ih.mp hrest
          refine ⟨record :: records, rfl, ?_⟩
          rw [List.filter_cons_of_pos htraded]
          exact .cons hread hrecords
      · rintro ⟨records, hrows, hrecords⟩
        obtain ⟨first, records, rfl, hfirst, rfl⟩ := List.map_eq_cons_iff.mp hrows.symm
        obtain rfl := Except.ok.inj hfirst
        cases htraded : isTraded l first with
        | false =>
          rw [List.filter_cons_of_neg (by simp [htraded])] at hrecords
          exact ⟨none, .inl ⟨rfl, rfl⟩, ih.mpr ⟨records, rfl, hrecords⟩⟩
        | true =>
          rw [List.filter_cons_of_pos htraded] at hrecords
          cases hrecords with
          | cons hread hrecords =>
            exact ⟨some _, .inr ⟨rfl, _, rfl, hread⟩,
              bind_eq_ok.mpr ⟨_, ih.mpr ⟨records, rfl, hrecords⟩, rfl⟩⟩

/-! ## The order of the bars -/

/-- Bars by date, those of one date in the order that they had. -/
structure IsSorting (unsorted bars : List (Bar Float)) : Prop where
  ordered : bars.Pairwise fun a b => a.date ≤ b.date
  perm : bars.Perm unsorted
  stable : ∀ date, bars.filter (fun b => decide (b.date = date)) = unsorted.filter (fun b => decide (b.date = date))

theorem isSorting_mergeSort (unsorted : List (Bar Float)) :
    IsSorting unsorted (unsorted.mergeSort fun a b => decide (a.date ≤ b.date)) := by
  have htrans : ∀ a b c : Bar Float, decide (a.date ≤ b.date) = true → decide (b.date ≤ c.date) = true →
      decide (a.date ≤ c.date) = true := by
    intro a b c hab hbc
    exact decide_eq_true (Date.le_trans (of_decide_eq_true hab) (of_decide_eq_true hbc))
  have htotal : ∀ a b : Bar Float, (decide (a.date ≤ b.date) || decide (b.date ≤ a.date)) = true := by
    intro a b
    rw [Bool.or_eq_true, decide_eq_true_iff, decide_eq_true_iff]
    exact Date.le_total _ _
  have hperm := List.mergeSort_perm unsorted fun a b => decide (a.date ≤ b.date)
  refine ⟨(List.pairwise_mergeSort htrans htotal unsorted).imp of_decide_eq_true, hperm, fun date => ?_⟩
  -- The bars of a date are sorted already, so they are a part of the sorted list.
  have hsame : (unsorted.filter fun b => decide (b.date = date)).Pairwise
      fun a b => decide (a.date ≤ b.date) = true := by
    refine List.pairwise_of_forall_mem_list fun a ha b hb => ?_
    simp only [List.mem_filter, decide_eq_true_eq] at ha hb
    rw [ha.2, hb.2]
    exact decide_eq_true (Date.le_refl date)
  have hpart := (List.sublist_mergeSort htrans htotal hsame List.filter_sublist).filter fun b => decide (b.date = date)
  rw [List.filter_filter] at hpart
  simp only [Bool.and_self] at hpart
  exact (hpart.eq_of_length (hperm.filter _).length_eq.symm).symm

/-- The bars of a sheet, from the columns and the rows. -/
theorem ofSheet_eq_ok_iff {sheet : Csv.Sheet} {bars : List (Bar Float)} :
    ofSheet sheet = .ok bars ↔ ∃ l : Columns, l.AreOf sheet.header ∧
      ∃ unsorted, ofRows l 2 sheet.rows = .ok unsorted ∧
      bars = unsorted.mergeSort fun a b => decide (a.date ≤ b.date) := by
  simp only [ofSheet, bind_eq_ok, Columns.ofHeader_eq_ok_iff]
  constructor
  · rintro ⟨l, hl, unsorted, hrows, h⟩
    exact ⟨l, hl, unsorted, hrows, (Except.ok.inj h).symm⟩
  · rintro ⟨l, hl, unsorted, hrows, rfl⟩
    exact ⟨l, hl, unsorted, hrows, rfl⟩

end Bar

/-! ## Columns in another order -/

/-- The fields at some places, in the order of the places. -/
def Csv.fieldsAt (places : List Nat) (fields : List String) : List String :=
  places.map fun k => fields[k]?.getD ""

/-- The columns at some places, in the order of the places. -/
def Csv.Sheet.columnsAt (places : List Nat) (sheet : Csv.Sheet) : Csv.Sheet :=
  ⟨Csv.fieldsAt places sheet.header, sheet.rows.map (Except.map (Csv.fieldsAt places))⟩

namespace Bar

/-- Places that leave the columns of one name in their order. -/
def KeepsOrder (places : List Nat) (header : List String) : Prop :=
  places.Pairwise fun i j => ∀ c : Column, c.IsNamedAt header i → c.IsNamedAt header j → i < j

theorem keepsOrder_of_nodup {places : List Nat} {header : List String} (hplaces : places.Nodup)
    (hnames : (header.map Text.folded).Nodup) : KeepsOrder places header := by
  refine hplaces.imp fun hne c hi hj => ?_
  obtain ⟨hilt, hi⟩ := List.getElem?_eq_some_iff.mp hi
  obtain ⟨hjlt, hj⟩ := List.getElem?_eq_some_iff.mp hj
  exact absurd ((hnames.getElem_inj_iff).mp (hi.trans hj.symm)) hne

/-- Places at which all columns of a sheet of prices are found in their order. -/
structure KeepsColumns (places : List Nat) (header : List String) : Prop where
  all : ∀ (c : Column) k, c.IsNamedAt header k → k ∈ places
  ordered : KeepsOrder places header

theorem isNamedAt_fieldsAt_iff {places : List Nat} {header : List String} {c : Column} {k : Nat} :
    c.IsNamedAt (Csv.fieldsAt places header) k ↔ ∃ i, places[k]? = some i ∧ c.IsNamedAt header i := by
  simp only [Column.IsNamedAt, Csv.fieldsAt, List.map_map, List.getElem?_map, Option.map_eq_some_iff, Function.comp]
  refine exists_congr fun i => and_congr_right fun _ => ?_
  cases header[i]? with
  | some name => simp
  | none =>
    -- No column has an empty name.
    cases c <;> decide

theorem standsAt_fieldsAt_iff {places : List Nat} {header : List String} (h : KeepsColumns places header)
    {c : Column} {k : Nat} :
    c.StandsAt (Csv.fieldsAt places header) k ↔ ∃ i, places[k]? = some i ∧ c.StandsAt header i := by
  have hordered := List.pairwise_iff_getElem.mp h.ordered
  simp only [Column.StandsAt, isNamedAt_fieldsAt_iff]
  constructor
  · rintro ⟨⟨i, hi, hnamed⟩, hfirst⟩
    refine ⟨i, hi, hnamed, fun j hj hnamedj => ?_⟩
    obtain ⟨m, hm⟩ := List.getElem?_of_mem (h.all c j hnamedj)
    obtain ⟨hklt, rfl⟩ := List.getElem?_eq_some_iff.mp hi
    obtain ⟨hmlt, rfl⟩ := List.getElem?_eq_some_iff.mp hm
    rcases Nat.lt_trichotomy m k with hlt | rfl | hlt
    · exact hfirst m hlt ⟨_, hm, hnamedj⟩
    · exact absurd hj (Nat.lt_irrefl _)
    · exact absurd (hordered k m hklt hmlt hlt c hnamed hnamedj) (Nat.not_lt.mpr hj.le)
  · rintro ⟨i, hi, hnamed, hfirst⟩
    refine ⟨⟨i, hi, hnamed⟩, ?_⟩
    rintro m hm ⟨j, hj, hnamedj⟩
    obtain ⟨hklt, rfl⟩ := List.getElem?_eq_some_iff.mp hi
    obtain ⟨hmlt, rfl⟩ := List.getElem?_eq_some_iff.mp hj
    exact hfirst _ (hordered m k hmlt hklt hm c hnamedj hnamed) hnamedj

theorem ofFields?_congr {l l' : Columns} {fields fields' : List String} (h : ∀ c, l'.field fields' c = l.field fields c)
    (row : Nat) : ofFields? l' row fields' = ofFields? l row fields := by
  have htraded : isTraded l' fields' = isTraded l fields := by simp only [isTraded, h]
  have hday : dayOf l' row fields' = dayOf l row fields := by simp only [dayOf, h]
  have hnumber : ∀ c, numberOf l' row fields' c = numberOf l row fields c := fun c => by simp only [numberOf, h]
  simp only [ofFields?_eq, htraded, hday, hnumber]

theorem ofRows_columnsAt {l l' : Columns} {places : List Nat} (h : ∀ c, places[l'.index c]? = some (l.index c))
    (rows : List (Except Csv.Uneven (List String))) :
    ∀ row, ofRows l' row (rows.map (Except.map (Csv.fieldsAt places))) = ofRows l row rows := by
  have hfield : ∀ fields c, l'.field (Csv.fieldsAt places fields) c = l.field fields c := by
    intro fields c
    simp [Columns.field, Csv.fieldsAt, h c]
  induction rows with
  | nil => exact fun _ => rfl
  | cons first rows ih =>
    intro row
    cases first with
    | error uneven => rfl
    | ok fields => simp only [List.map_cons, Except.map, ofRows, ofFields?_congr (hfield fields), ih]

/-- A sheet is read wherever its columns stand. -/
theorem ofSheet_columnsAt {sheet : Csv.Sheet} {places : List Nat} (h : KeepsColumns places sheet.header)
    {bars : List (Bar Float)} : ofSheet (sheet.columnsAt places) = .ok bars ↔ ofSheet sheet = .ok bars := by
  simp only [ofSheet_eq_ok_iff, Csv.Sheet.columnsAt]
  constructor
  · rintro ⟨l', hl', unsorted, hrows, rfl⟩
    obtain ⟨l, hl⟩ := Columns.exists_index fun c => (standsAt_fieldsAt_iff h).mp (hl' c)
    rw [ofRows_columnsAt fun c => (hl c).1] at hrows
    exact ⟨l, fun c => (hl c).2, unsorted, hrows, rfl⟩
  · rintro ⟨l, hl, unsorted, hrows, rfl⟩
    obtain ⟨l', hl'⟩ := Columns.exists_index fun c => List.getElem?_of_mem (h.all c _ (hl c).1)
    exact ⟨l', fun c => (standsAt_fieldsAt_iff h).mpr ⟨_, hl' c, hl c⟩, unsorted,
      (ofRows_columnsAt hl' sheet.rows 2).trans hrows, rfl⟩

/-! ## Records in another order -/

theorem ofRows_perm {l : Columns} {rows rows' : List (Except Csv.Uneven (List String))} {row : Nat}
    {bars : List (Bar Float)} (h : ofRows l row rows = .ok bars) (hperm : rows'.Perm rows) :
    ∃ bars', ofRows l row rows' = .ok bars' ∧ bars'.Perm bars := by
  obtain ⟨records, rfl, hread⟩ := ofRows_eq_ok_iff.mp h
  obtain ⟨records', rfl, hrecords⟩ := (congrFun (congrFun (List.eq_map_comp_perm Except.ok) rows') records).mpr hperm
  obtain ⟨bars', hread', hbars⟩ := List.perm_comp_forall₂ (hrecords.filter (isTraded l)) hread
  exact ⟨bars', ofRows_eq_ok_iff.mpr ⟨records', rfl, hread'⟩, hbars⟩

theorem eq_of_isSorting {unsorted unsorted' bars bars' : List (Bar Float)} (h : IsSorting unsorted bars)
    (h' : IsSorting unsorted' bars') (hperm : unsorted'.Perm unsorted) (hdates : (bars.map (·.date)).Nodup) :
    bars' = bars := by
  have hbars : bars'.Perm bars := h'.perm.trans (hperm.trans h.perm.symm)
  refine hbars.eq_of_pairwise (fun a b ha hb hab hba => ?_) h'.ordered h.ordered
  exact List.inj_on_of_nodup_map hdates (hbars.subset ha) hb (Date.le_antisymm hab hba)

/-- Records of different days are read in any order. -/
theorem ofSheet_perm {header : List String} {rows rows' : List (Except Csv.Uneven (List String))}
    {bars : List (Bar Float)} (h : ofSheet ⟨header, rows⟩ = .ok bars) (hperm : rows'.Perm rows)
    (hdates : (bars.map (·.date)).Nodup) : ofSheet ⟨header, rows'⟩ = .ok bars := by
  obtain ⟨l, hl, unsorted, hrows, rfl⟩ := ofSheet_eq_ok_iff.mp h
  obtain ⟨unsorted', hrows', hunsorted⟩ := ofRows_perm hrows hperm
  refine ofSheet_eq_ok_iff.mpr ⟨l, hl, unsorted', hrows', ?_⟩
  exact (eq_of_isSorting (isSorting_mergeSort unsorted) (isSorting_mergeSort unsorted') hunsorted hdates).symm

/-! ## The layout -/

/-- **The layout of a sheet is of no account.** Each record of a session with trading is one bar, read from the first
column of each name, and the bars are sorted by date, those of one date in the order of their records. So the same bars
are read if columns of different names change places, if columns of other names are added, if the names change their
case, and, where no two bars have one date, if the records change places. -/
theorem ofSheet_layout {sheet : Csv.Sheet} {bars : List (Bar Float)} (h : ofSheet sheet = .ok bars) :
    (∃ l : Columns, l.AreOf sheet.header ∧ ∃ records : List (List String), sheet.rows = records.map .ok ∧
      ∃ unsorted, List.Forall₂ (IsRead l) (records.filter (isTraded l)) unsorted ∧ IsSorting unsorted bars) ∧
    (∀ places : List Nat, places.Perm (List.range sheet.header.length) → KeepsOrder places sheet.header →
      ofSheet (sheet.columnsAt places) = .ok bars) ∧
    (∀ (wider : Csv.Sheet) (places : List Nat), wider.columnsAt places = sheet → places.Pairwise (· < ·) →
      (∀ k, k ∉ places → ∀ c : Column, ¬ c.IsNamedAt wider.header k) → ofSheet wider = .ok bars) ∧
    (∀ header, header.map Text.folded = sheet.header.map Text.folded → ofSheet ⟨header, sheet.rows⟩ = .ok bars) ∧
    ((bars.map (·.date)).Nodup → ∀ rows, rows.Perm sheet.rows → ofSheet ⟨sheet.header, rows⟩ = .ok bars) := by
  refine ⟨?_, ?_, ?_, ?_, fun hdates rows hperm => ofSheet_perm h hperm hdates⟩
  · obtain ⟨l, hl, unsorted, hrows, rfl⟩ := ofSheet_eq_ok_iff.mp h
    obtain ⟨records, hrecords, hread⟩ := ofRows_eq_ok_iff.mp hrows
    exact ⟨l, hl, records, hrecords, unsorted, hread, isSorting_mergeSort unsorted⟩
  · intro places hplaces hordered
    refine (ofSheet_columnsAt ⟨fun c k hnamed => ?_, hordered⟩).mpr h
    exact hplaces.mem_iff.mpr (List.mem_range.mpr hnamed.lt_length)
  · rintro wider places rfl hascending hunrelated
    refine (ofSheet_columnsAt ⟨fun c k hnamed => ?_, hascending.imp fun hlt c _ _ => hlt⟩).mp h
    by_contra hmem
    exact hunrelated k hmem c hnamed
  · intro header hnames
    have hnamed : ∀ (c : Column) k, c.IsNamedAt header k ↔ c.IsNamedAt sheet.header k := by
      intro c k
      rw [Column.IsNamedAt, Column.IsNamedAt, hnames]
    obtain ⟨l, hl, hbars⟩ := ofSheet_eq_ok_iff.mp h
    refine ofSheet_eq_ok_iff.mpr ⟨l, fun c => ⟨(hnamed c _).mpr (hl c).1, fun j hj => ?_⟩, hbars⟩
    exact mt (hnamed c j).mp ((hl c).2 j hj)

/-- Five records: three without a number somewhere, and of the others the second is the first by date. -/
def sampleSheet : Csv.Sheet :=
  ⟨["Date", " open ", "HIGH", "Low", "close", "Volume"],
    [.ok ["2024-01-03", "3", "3.5", "2.5", "3.25", "5"], .ok ["2024-01-02", "2", "4", "1", "3", "NaN"],
      .ok ["2024-01-04", "null", "4", "1", "3", "7"], .ok ["2024-01-05", "2", "", "1", "3", "7"],
      .ok ["2024-01-02 09:30", "2", "4", "1", "3", "6"]]⟩

/-- The sheet with its columns and its records in reverse, and two other columns among them. -/
def reversedSheet : Csv.Sheet :=
  ⟨["volume", "close", "adj close", "low", "high", "open", "dividends", "date"],
    [.ok ["6", "3", "1.5", "1", "4", "2", "", "2024-01-02 09:30"],
      .ok ["7", "3", "", "1", "", "2", "", "2024-01-05"],
      .ok ["7", "3", "", "1", "4", "null", "", "2024-01-04"],
      .ok ["NaN", "3", "", "1", "4", "2", "", "2024-01-02"],
      .ok ["5", "3.25", "", "2.5", "3.5", "3", "0.5", "2024-01-03"]]⟩

def sampleBars : List (Bar Float) := [⟨⟨19724⟩, 2, 4, 1, 3, 6⟩, ⟨⟨19725⟩, 3, 3.5, 2.5, 3.25, 5⟩]

theorem ofRows_sampleSheet : ofRows ⟨0, 1, 2, 3, 4, 5⟩ 2 sampleSheet.rows = .ok sampleBars.reverse := by
  obtain ⟨early, late, hrows, hearly, hlate⟩ : ∃ early late : Bar Float,
      ofRows ⟨0, 1, 2, 3, 4, 5⟩ 2 sampleSheet.rows = .ok [late, early] ∧
      (early.date = ⟨19724⟩ ∧ early.openPrice = 2 ∧ early.high = 4 ∧ early.low = 1 ∧ early.close = 3 ∧
        early.volume = 6) ∧
      (late.date = ⟨19725⟩ ∧ late.openPrice = 3 ∧ late.high = 3.5 ∧ late.low = 2.5 ∧ late.close = 3.25 ∧
        late.volume = 5) :=
    ⟨_, _, rfl, by decide +kernel, by decide +kernel⟩
  cases early
  cases late
  obtain ⟨rfl, rfl, rfl, rfl, rfl, rfl⟩ := hearly
  obtain ⟨rfl, rfl, rfl, rfl, rfl, rfl⟩ := hlate
  exact hrows

theorem isSorting_sampleBars : IsSorting sampleBars.reverse sampleBars where
  ordered := by simpa [sampleBars] using Date.le_of_lt (by decide)
  perm := (List.reverse_perm _).symm
  stable date := by
    simp only [sampleBars, List.reverse_cons, List.reverse_nil, List.nil_append, List.singleton_append,
      List.filter_cons, List.filter_nil, decide_eq_true_eq]
    split_ifs with hearly hlate
    · exact absurd (hearly.trans hlate.symm) (by decide)
    all_goals rfl

theorem ofSheet_layout_sample :
    ofSheet sampleSheet = .ok sampleBars ∧ ofSheet reversedSheet = .ok sampleBars := by
  have hdates : (sampleBars.map (·.date)).Nodup := by decide
  have hcolumns : Columns.ofHeader sampleSheet.header = .ok ⟨0, 1, 2, 3, 4, 5⟩ := by decide +kernel
  have hsample : ofSheet sampleSheet = .ok sampleBars := by
    refine ofSheet_eq_ok_iff.mpr ⟨_, Columns.ofHeader_eq_ok_iff.mp hcolumns, _, ofRows_sampleSheet, ?_⟩
    exact (eq_of_isSorting isSorting_sampleBars (isSorting_mergeSort _) (.refl _) hdates).symm
  obtain ⟨-, -, -, -, hrecords⟩ := ofSheet_layout hsample
  obtain ⟨-, hplaces, -⟩ := ofSheet_layout (hrecords hdates _ (List.reverse_perm _))
  have hdescending := hplaces [5, 4, 3, 2, 1, 0] (by decide) (keepsOrder_of_nodup (by decide) (by decide +kernel))
  obtain ⟨-, -, -, hcase, -⟩ := ofSheet_layout hdescending
  have hlower := hcase ["volume", "close", "low", "high", "open", "date"] (by decide +kernel)
  obtain ⟨-, -, hwider, -⟩ := ofSheet_layout hlower
  refine ⟨hsample, hwider reversedSheet [0, 1, 3, 4, 5, 7] rfl (by decide) ?_⟩
  intro k hk c hnamed
  have hlt : k < 8 := hnamed.lt_length
  have hother : k = 2 ∨ k = 6 := by
    simp only [List.mem_cons, List.not_mem_nil, or_false, not_or] at hk
    omega
  rcases hother with rfl | rfl <;> cases c <;> exact absurd hnamed (by decide +kernel)

end Bar

/-- The bars of a ticker are those of its sheet. -/
theorem PriceDirectory.fetch_eq_ok_iff {d : PriceDirectory} {disk : Disk} {ticker : String} {timeframe : Timeframe}
    {bars : List (Bar Float)} : d.fetch disk ticker timeframe = .ok bars ↔
      ∃ text, disk.readText (d.filePath ticker timeframe) = .ok text ∧
        Bar.ofSheet (Csv.sheet text.toList) = .ok bars := by
  rw [fetch]
  cases disk.readText (d.filePath ticker timeframe) with
  | error fault => simp
  | ok text =>
    simp only [Bar.ofCsv, Except.ok.injEq, exists_eq_left']
    split
    · rename_i found hfound
      rw [hfound, Except.ok.injEq, Except.ok.injEq]
    · rename_i fault hfault
      simp [hfault]

end Backtest
