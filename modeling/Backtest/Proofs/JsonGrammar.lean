import Backtest.Json
import Backtest.Proofs.NumberText

/-!
# JSON texts and their values

`Json.Spells cs v` says that the characters `cs` are a JSON text of the value `v`: words, whole numbers by their
digits, other numbers by a numeral whose double is the number, texts between quotes, and items and members with commas
between them. Blanks may stand around every value. The relation knows nothing of how values are written.

`Json.readText` would not do in its place, since it is made for candidates: it sorts the members of an object, and its
numbers may lie beside the nearest double (it does not read `90.42225290942383` back).

A text has one value: `Json.Spells.unique`. Where a value ends can be seen without looking further
(`Json.Determines`): a number ends in front of what is no part of a number, a text at the first quote that is not
escaped, and items at the first bracket behind one of them.
-/

namespace Backtest.Json

open Decimal (Numeral)

/-! ## The grammar -/

def IsSpace (c : Char) : Prop := c = ' ' ∨ c = '\n' ∨ c = '\r' ∨ c = '\t'

/-- Characters that may stand around a value. -/
def IsBlank (cs : List Char) : Prop := ∀ c ∈ cs, IsSpace c

/-- The character that a letter stands for behind a backslash. -/
def charOfLetter? : Char → Option Char
  | '"' => some '"'
  | '\\' => some '\\'
  | '/' => some '/'
  | 'b' => some (Char.ofNat 8)
  | 'f' => some (Char.ofNat 12)
  | 'n' => some '\n'
  | 'r' => some '\r'
  | 't' => some '\t'
  | _ => none

def hexOfChar? (c : Char) : Option ℕ :=
  if c.isDigit then some (c.toNat - '0'.toNat)
  else if 'a' ≤ c ∧ c ≤ 'f' then some (c.toNat - 'a'.toNat + 10)
  else if 'A' ≤ c ∧ c ≤ 'F' then some (c.toNat - 'A'.toNat + 10)
  else none

/-- The character with a hexadecimal number. The halves of a pair are no characters. -/
def charOfCode? (digits : List Char) : Option Char := do
  let n := (← digits.mapM hexOfChar?).foldl (fun n d => 16 * n + d) 0
  if n < 0xd800 ∨ 0xdfff < n then some (Char.ofNat n) else none

/-- What stands between quotes for the characters of a text. -/
inductive SpellsText : List Char → List Char → Prop where
  | nil : SpellsText [] []
  | plain {c : Char} {cs s : List Char} (hquote : c ≠ '"') (hslash : c ≠ '\\') (hcontrol : 32 ≤ c.toNat)
      (h : SpellsText cs s) : SpellsText (c :: cs) (c :: s)
  | escaped {e c : Char} {cs s : List Char} (hc : charOfLetter? e = some c) (h : SpellsText cs s) :
      SpellsText ('\\' :: e :: cs) (c :: s)
  | coded {digits : List Char} {c : Char} {cs s : List Char} (hlength : digits.length = 4)
      (hc : charOfCode? digits = some c) (h : SpellsText cs s) : SpellsText ('\\' :: 'u' :: digits ++ cs) (c :: s)

/-- The texts of a number. What has a point or an exponent is a double, and everything else is whole. -/
inductive SpellsNumber : List Char → Number → Prop where
  | natural (n : ℕ) : SpellsNumber (Nat.toDigits 10 n) (.whole n)
  | negative (n : ℕ) (hn : 0 < n) : SpellsNumber ('-' :: Nat.toDigits 10 n) (.whole (-n))
  | real (n : Numeral) (hn : n.IsWellFormed) (hreal : n.places ≠ [] ∨ n.exponent ≠ none) {x : Float}
      (hx : x.isFinite = true) (hread : Decimal.readFloat n.text = .ok x) : SpellsNumber n.text (.real x hx)

mutual

/-- Characters are a JSON text of a value. -/
inductive Spells : List Char → Json → Prop where
  | null : Spells ['n', 'u', 'l', 'l'] null
  | true : Spells ['t', 'r', 'u', 'e'] (bool true)
  | false : Spells ['f', 'a', 'l', 's', 'e'] (bool false)
  | num {cs : List Char} {n : Number} (h : SpellsNumber cs n) : Spells cs (num n)
  | str {cs : List Char} {s : String} (h : SpellsText cs s.toList) : Spells ('"' :: cs ++ ['"']) (str s)
  | noItems : Spells ['[', ']'] (arr [])
  | arr {cs : List Char} {items : List Json} (h : SpellsItems cs items) : Spells ('[' :: cs ++ [']']) (arr items)
  | noMembers : Spells ['\x7b', '\x7d'] (obj [])
  | obj {cs : List Char} {members : List (String × Json)} (h : SpellsMembers cs members) :
      Spells ('\x7b' :: cs ++ ['\x7d']) (obj members)
  | blank {left cs right : List Char} {v : Json} (hleft : IsBlank left) (h : Spells cs v) (hright : IsBlank right) :
      Spells (left ++ cs ++ right) v

/-- Characters are texts of some values with commas between them. -/
inductive SpellsItems : List Char → List Json → Prop where
  | single {cs : List Char} {v : Json} (h : Spells cs v) : SpellsItems cs [v]
  | cons {cs ds : List Char} {v : Json} {items : List Json} (h : Spells cs v) (hitems : SpellsItems ds items) :
      SpellsItems (cs ++ ',' :: ds) (v :: items)

/-- Characters are names and texts of some members, with colons and commas between them. -/
inductive SpellsMembers : List Char → List (String × Json) → Prop where
  | single {cs ds : List Char} {name : String} {v : Json} (hname : Spells cs (str name)) (h : Spells ds v) :
      SpellsMembers (cs ++ ':' :: ds) [(name, v)]
  | cons {cs ds es : List Char} {name : String} {v : Json} {members : List (String × Json)}
      (hname : Spells cs (str name)) (h : Spells ds v) (hmembers : SpellsMembers es members) :
      SpellsMembers (cs ++ ':' :: ds ++ ',' :: es) ((name, v) :: members)

end

/-! ## Texts and numbers are told from what is behind them -/

/-- Lists that end where a kind of characters ends are the same, if what is behind them makes the same whole. -/
theorem eq_of_append {P : Char → Prop} {as bs xs ys : List Char} (has : ∀ c ∈ as, P c) (hbs : ∀ c ∈ bs, P c)
    (hxs : ∀ c ∈ xs.head?, ¬ P c) (hys : ∀ c ∈ ys.head?, ¬ P c) (h : as ++ xs = bs ++ ys) :
    as = bs ∧ xs = ys := by
  induction as generalizing bs with
  | nil =>
    cases bs with
    | nil => exact ⟨rfl, h⟩
    | cons b bs =>
      subst h
      exact absurd (hbs b List.mem_cons_self) (hxs b rfl)
  | cons a as ih =>
    cases bs with
    | nil =>
      rw [List.nil_append] at h
      subst h
      exact absurd (has a List.mem_cons_self) (hys a rfl)
    | cons b bs =>
      obtain ⟨rfl, htail⟩ := List.cons.inj h
      obtain ⟨rfl, rfl⟩ := ih (fun c hc => has c (List.mem_cons_of_mem _ hc))
        (fun c hc => hbs c (List.mem_cons_of_mem _ hc)) htail
      exact ⟨rfl, rfl⟩

/-- A text ends at the first quote that is not escaped. -/
theorem SpellsText.unique {cs s : List Char} (h : SpellsText cs s) : ∀ {ds t xs ys : List Char}, SpellsText ds t →
    cs ++ '"' :: xs = ds ++ '"' :: ys → cs = ds ∧ s = t := by
  induction h with
  | nil =>
    intro ds t xs ys h' heq
    cases h' with
    | nil => exact ⟨rfl, rfl⟩
    | plain hquote => exact absurd (List.cons.inj heq).1.symm hquote
    | escaped => exact absurd (List.cons.inj heq).1 (by decide)
    | coded => exact absurd (List.cons.inj heq).1 (by decide)
  | plain hquote hslash hcontrol h ih =>
    intro ds t xs ys h' heq
    cases h' with
    | nil => exact absurd (List.cons.inj heq).1 hquote
    | plain _ _ _ h' =>
      obtain ⟨rfl, htail⟩ := List.cons.inj heq
      obtain ⟨rfl, rfl⟩ := ih h' htail
      exact ⟨rfl, rfl⟩
    | escaped => exact absurd (List.cons.inj heq).1 hslash
    | coded => exact absurd (List.cons.inj heq).1 hslash
  | escaped hc h ih =>
    intro ds t xs ys h' heq
    cases h' with
    | nil => exact absurd (List.cons.inj heq).1 (by decide)
    | plain _ hslash => exact absurd (List.cons.inj heq).1.symm hslash
    | escaped hc' h' =>
      obtain ⟨rfl, htail⟩ := List.cons.inj (List.cons.inj heq).2
      obtain ⟨rfl, rfl⟩ := ih h' htail
      exact ⟨rfl, by rw [Option.some.inj (hc.symm.trans hc')]⟩
    | coded =>
      obtain ⟨rfl, -⟩ := List.cons.inj (List.cons.inj heq).2
      cases hc
  | @coded digits _ cs _ hlength hc h ih =>
    intro ds t xs ys h' heq
    cases h' with
    | nil => exact absurd (List.cons.inj heq).1 (by decide)
    | plain _ hslash => exact absurd (List.cons.inj heq).1.symm hslash
    | escaped hc' =>
      obtain ⟨rfl, -⟩ := List.cons.inj (List.cons.inj heq).2
      cases hc'
    | @coded digits' _ cs' _ hlength' hc' h' =>
      have htail : digits ++ (cs ++ '"' :: xs) = digits' ++ (cs' ++ '"' :: ys) := by
        rw [← List.append_assoc, ← List.append_assoc]
        exact (List.cons.inj (List.cons.inj heq).2).2
      obtain ⟨rfl, hrest⟩ := List.append_inj htail (hlength.trans hlength'.symm)
      obtain ⟨rfl, rfl⟩ := ih h' hrest
      exact ⟨rfl, by rw [Option.some.inj (hc.symm.trans hc')]⟩

/-- What a number is made of. -/
def IsNumeric (c : Char) : Prop := c.isDigit = true ∨ c = '-' ∨ c = '+' ∨ c = '.' ∨ c = 'e'

/-- Digits and a sign, as in the text of a whole number. -/
def IsWhole (c : Char) : Prop := c.isDigit = true ∨ c = '-'

theorem isWhole_natural {k : ℕ} {c : Char} (hc : c ∈ Nat.toDigits 10 k) : IsWhole c := .inl (isDigit_toDigits hc)

theorem isWhole_negative {k : ℕ} {c : Char} (hc : c ∈ '-' :: Nat.toDigits 10 k) : IsWhole c := by
  rcases List.mem_cons.mp hc with rfl | hc
  · exact .inr rfl
  · exact isWhole_natural hc

theorem not_mem_minus {k : ℕ} : '-' ∉ Nat.toDigits 10 k := fun h => absurd (isDigit_toDigits h) (by decide)

theorem isNumeric_exponentText {e : Option (Bool × List Char)}
    (he : ∀ x ∈ e, ∀ c ∈ x.2, c.isDigit = true) {c : Char} (hc : c ∈ Numeral.exponentText e) : IsNumeric c := by
  cases e with
  | none => cases hc
  | some x =>
    obtain ⟨negative, ds⟩ := x
    rcases List.mem_cons.mp hc with rfl | hc
    · exact .inr (.inr (.inr (.inr rfl)))
    rcases List.mem_cons.mp hc with rfl | hc
    · cases negative
      · exact .inr (.inr (.inl rfl))
      · exact .inr (.inl rfl)
    · exact .inl (he _ rfl c hc)

theorem isNumeric_text {n : Numeral} (h : n.IsWellFormed) {c : Char} (hc : c ∈ n.text) : IsNumeric c := by
  have hbody : ∀ c ∈ n.body, IsNumeric c := by
    intro c hc
    rw [Numeral.body, List.mem_append, List.mem_append] at hc
    rcases hc with (hc | hc) | hc
    · exact .inl (h.digits c (List.mem_append_left _ hc))
    · split_ifs at hc
      · cases hc
      · rcases List.mem_cons.mp hc with rfl | hc
        · exact .inr (.inr (.inr (.inl rfl)))
        · exact .inl (h.digits c (List.mem_append_right _ hc))
    · exact isNumeric_exponentText (fun x hx => (h.exponent x hx).2) hc
  rw [Numeral.text] at hc
  split_ifs at hc
  · rcases List.mem_cons.mp hc with rfl | hc
    · exact .inr (.inl rfl)
    · exact hbody c hc
  · exact hbody c hc

/-- A number that is not whole has a point or an exponent. -/
theorem exists_not_isWhole {n : Numeral} (hreal : n.places ≠ [] ∨ n.exponent ≠ none) :
    ∃ c ∈ n.text, ¬ IsWhole c := by
  obtain ⟨c, hc, hwhole⟩ : ∃ c ∈ n.body, ¬ IsWhole c := by
    rw [Numeral.body]
    rcases hreal with hplaces | hexponent
    · refine ⟨'.', List.mem_append_left _ (List.mem_append_right _ ?_), by simp [IsWhole]⟩
      rw [List.isEmpty_eq_false_iff.mpr hplaces]
      exact List.mem_cons_self
    · obtain ⟨e, he⟩ := Option.ne_none_iff_exists'.mp hexponent
      refine ⟨'e', List.mem_append_right _ ?_, by simp [IsWhole]⟩
      rw [he]
      exact List.mem_cons_self
  refine ⟨c, ?_, hwhole⟩
  rw [Numeral.text]
  split_ifs
  · exact List.mem_cons_of_mem _ hc
  · exact hc

theorem SpellsNumber.isNumeric {cs : List Char} {n : Number} (h : SpellsNumber cs n) : ∀ c ∈ cs, IsNumeric c := by
  have hwhole : ∀ {c}, IsWhole c → IsNumeric c := Or.imp_right .inl
  cases h with
  | natural k => exact fun c hc => hwhole (isWhole_natural hc)
  | negative k hk => exact fun c hc => hwhole (isWhole_negative hc)
  | real m hm => exact fun c hc => isNumeric_text hm hc

theorem SpellsNumber.unique {cs ds : List Char} {n m : Number} (h : SpellsNumber cs n) (h' : SpellsNumber ds m)
    (heq : cs = ds) : n = m := by
  have hdigits : ∀ {j k : ℕ}, Nat.toDigits 10 j = Nat.toDigits 10 k → j = k := fun {j k} heq => by
    rw [← natOfDigits_toDigits j, heq, natOfDigits_toDigits k]
  cases h with
  | natural k =>
    cases h' with
    | natural j => rw [hdigits heq]
    | negative j hj => exact absurd (heq ▸ List.mem_cons_self) not_mem_minus
    | real p _ hreal =>
      obtain ⟨c, hc, hwhole⟩ := exists_not_isWhole hreal
      exact absurd (isWhole_natural (heq ▸ hc)) hwhole
  | negative k hk =>
    cases h' with
    | natural j => exact absurd (heq ▸ List.mem_cons_self) not_mem_minus
    | negative j hj => rw [hdigits (List.cons.inj heq).2]
    | real p _ hreal =>
      obtain ⟨c, hc, hwhole⟩ := exists_not_isWhole hreal
      exact absurd (isWhole_negative (heq ▸ hc)) hwhole
  | real p _ hreal hx hread =>
    cases h' with
    | natural j =>
      obtain ⟨c, hc, hwhole⟩ := exists_not_isWhole hreal
      exact absurd (isWhole_natural (heq ▸ hc)) hwhole
    | negative j hj =>
      obtain ⟨c, hc, hwhole⟩ := exists_not_isWhole hreal
      exact absurd (isWhole_negative (heq ▸ hc)) hwhole
    | real q _ _ hy hread' =>
      rw [heq, hread'] at hread
      cases hread
      rfl

/-! ## Values without the blanks around them -/

/-- Characters are a text of a value that begins and ends with the value. -/
def SpellsBare (cs : List Char) : Json → Prop
  | null => cs = ['n', 'u', 'l', 'l']
  | bool b => cs = if b then ['t', 'r', 'u', 'e'] else ['f', 'a', 'l', 's', 'e']
  | num n => SpellsNumber cs n
  | str s => ∃ ds, cs = '"' :: ds ++ ['"'] ∧ SpellsText ds s.toList
  | arr items => ∃ ds, cs = '[' :: ds ++ [']'] ∧ (ds = [] ∧ items = [] ∨ SpellsItems ds items)
  | obj members => ∃ ds, cs = '\x7b' :: ds ++ ['\x7d'] ∧ (ds = [] ∧ members = [] ∨ SpellsMembers ds members)

theorem isBlank_nil : IsBlank [] := nofun

theorem IsBlank.append {cs ds : List Char} (hcs : IsBlank cs) (hds : IsBlank ds) : IsBlank (cs ++ ds) :=
  fun c hc => (List.mem_append.mp hc).elim (hcs c) (hds c)

theorem SpellsBare.between {cs : List Char} {v : Json} (h : SpellsBare cs v) :
    ∃ left core right, cs = left ++ core ++ right ∧ IsBlank left ∧ IsBlank right ∧ SpellsBare core v :=
  ⟨[], cs, [], by simp, isBlank_nil, isBlank_nil, h⟩

theorem Spells.exists_bare : ∀ {cs : List Char} {v : Json}, Spells cs v →
    ∃ left core right, cs = left ++ core ++ right ∧ IsBlank left ∧ IsBlank right ∧ SpellsBare core v
  | _, _, .null => SpellsBare.between (v := .null) rfl
  | _, _, .true => SpellsBare.between (v := .bool _) rfl
  | _, _, .false => SpellsBare.between (v := .bool _) rfl
  | _, _, .num h => SpellsBare.between (v := .num _) h
  | _, _, .str h => SpellsBare.between (v := .str _) ⟨_, rfl, h⟩
  | _, _, .noItems => SpellsBare.between (v := .arr _) ⟨[], rfl, .inl ⟨rfl, rfl⟩⟩
  | _, _, .arr h => SpellsBare.between (v := .arr _) ⟨_, rfl, .inr h⟩
  | _, _, .noMembers => SpellsBare.between (v := .obj _) ⟨[], rfl, .inl ⟨rfl, rfl⟩⟩
  | _, _, .obj h => SpellsBare.between (v := .obj _) ⟨_, rfl, .inr h⟩
  | _, _, .blank hleft h hright => by
    obtain ⟨left, core, right, rfl, hleft', hright', hcore⟩ := h.exists_bare
    exact ⟨_, core, _, by simp only [List.append_assoc], hleft.append hleft', hright'.append hright, hcore⟩

/-- The kinds of values. -/
def kind : Json → ℕ
  | null => 0
  | bool _ => 1
  | num _ => 2
  | str _ => 3
  | arr _ => 4
  | obj _ => 5

/-- The kind of a value by its first character. No value begins with any other one. -/
def kind? (c : Char) : Option ℕ :=
  if c.isDigit ∨ c = '-' then some 2
  else if c = 'n' then some 0
  else if c = 't' ∨ c = 'f' then some 1
  else if c = '"' then some 3
  else if c = '[' then some 4
  else if c = '\x7b' then some 5
  else none

theorem SpellsNumber.exists_first {cs : List Char} {n : Number} (h : SpellsNumber cs n) :
    ∃ c rest, cs = c :: rest ∧ kind? c = some 2 := by
  obtain ⟨c, rest, rfl, hc⟩ : ∃ c rest, cs = c :: rest ∧ IsWhole c := by
    cases h with
    | natural k =>
      obtain ⟨c, rest, hdigits⟩ := List.exists_cons_of_ne_nil (Nat.toDigits_ne_nil (b := 10) (n := k))
      exact ⟨c, rest, hdigits, isWhole_natural (hdigits ▸ List.mem_cons_self)⟩
    | negative k hk => exact ⟨_, _, rfl, .inr rfl⟩
    | real n hn =>
      rw [Numeral.text]
      split_ifs
      · exact ⟨_, _, rfl, .inr rfl⟩
      · obtain ⟨c, rest, hwhole⟩ := List.exists_cons_of_ne_nil hn.whole
        rw [Numeral.body, hwhole]
        exact ⟨c, _, rfl, .inl (hn.digits c (List.mem_append_left _ (hwhole ▸ List.mem_cons_self)))⟩
  exact ⟨c, rest, rfl, if_pos hc⟩

theorem SpellsBare.exists_first {cs : List Char} {v : Json} (h : SpellsBare cs v) :
    ∃ c rest, cs = c :: rest ∧ kind? c = some v.kind := by
  cases v with
  | null => exact ⟨_, _, h, rfl⟩
  | bool b =>
    cases b with
    | false => exact ⟨_, _, h, rfl⟩
    | true => exact ⟨_, _, h, rfl⟩
  | num n => exact SpellsNumber.exists_first h
  | str s =>
    obtain ⟨ds, rfl, -⟩ := h
    exact ⟨_, _, rfl, rfl⟩
  | arr items =>
    obtain ⟨ds, rfl, -⟩ := h
    exact ⟨_, _, rfl, rfl⟩
  | obj members =>
    obtain ⟨ds, rfl, -⟩ := h
    exact ⟨_, _, rfl, rfl⟩

/-- A text of a value begins with a blank or with a character of its kind, so with no closing bracket. -/
theorem Spells.exists_first {cs : List Char} {v : Json} (h : Spells cs v) :
    ∃ c rest, cs = c :: rest ∧ c ≠ ']' ∧ c ≠ '\x7d' := by
  obtain ⟨left, core, right, rfl, hleft, -, hcore⟩ := h.exists_bare
  cases left with
  | nil =>
    obtain ⟨c, rest, rfl, hc⟩ := hcore.exists_first
    refine ⟨c, rest ++ right, rfl, ?_, ?_⟩
    · rintro rfl
      cases hc
    · rintro rfl
      cases hc
  | cons c left =>
    refine ⟨c, _, rfl, ?_, ?_⟩
    · rintro rfl
      exact absurd (hleft _ List.mem_cons_self) (by simp [IsSpace])
    · rintro rfl
      exact absurd (hleft _ List.mem_cons_self) (by simp [IsSpace])

/-! ## A text has one value -/

/-- What ends a value and the blanks behind it. -/
def IsStop (xs : List Char) : Prop := ∀ c ∈ xs.head?, c = ',' ∨ c = ':' ∨ c = ']' ∨ c = '\x7d'

theorem isStop_nil : IsStop [] := nofun

theorem isStop_cons {c : Char} (hc : c = ',' ∨ c = ':' ∨ c = ']' ∨ c = '\x7d') (xs : List Char) :
    IsStop (c :: xs) := by
  rintro d ⟨⟩
  exact hc

/-- A text and its value are told from what is behind it. -/
def Determines (cs : List Char) (v : Json) : Prop :=
  ∀ {ds w xs ys}, Spells ds w → IsStop xs → IsStop ys → cs ++ xs = ds ++ ys → cs = ds ∧ v = w

/-- The same, where blanks may stand behind the text. -/
def DeterminesBare (cs : List Char) (v : Json) : Prop :=
  ∀ {ds w xs ys}, SpellsBare ds w → (∀ c ∈ xs.head?, ¬ IsNumeric c) → (∀ c ∈ ys.head?, ¬ IsNumeric c) →
    cs ++ xs = ds ++ ys → cs = ds ∧ v = w

theorem IsStop.not_isSpace {xs : List Char} (h : IsStop xs) : ∀ c ∈ xs.head?, ¬ IsSpace c := by
  intro c hc
  rcases h c hc with rfl | rfl | rfl | rfl <;> simp [IsSpace]

theorem not_isNumeric_of_stop {right xs : List Char} (hright : IsBlank right) (h : IsStop xs) :
    ∀ c ∈ (right ++ xs).head?, ¬ IsNumeric c := by
  intro c hc
  cases right with
  | nil => rcases h c hc with rfl | rfl | rfl | rfl <;> simp [IsNumeric]
  | cons d right =>
    obtain rfl : d = c := Option.some.inj hc
    rcases hright d List.mem_cons_self with rfl | rfl | rfl | rfl <;> simp [IsNumeric]

theorem SpellsBare.not_isSpace {cs : List Char} {v : Json} (h : SpellsBare cs v) (xs : List Char) :
    ∀ c ∈ (cs ++ xs).head?, ¬ IsSpace c := by
  obtain ⟨c, rest, rfl, hc⟩ := h.exists_first
  rintro d ⟨⟩ hspace
  rcases hspace with rfl | rfl | rfl | rfl <;> cases hc

/-- Two values that begin one text are of the same kind, whatever is behind them. -/
theorem SpellsBare.kind_eq {cs ds xs ys : List Char} {v w : Json} (h : SpellsBare cs v) (h' : SpellsBare ds w)
    (heq : cs ++ xs = ds ++ ys) : v.kind = w.kind := by
  obtain ⟨c, rest, rfl, hc⟩ := h.exists_first
  obtain ⟨d, rest', rfl, hd⟩ := h'.exists_first
  obtain ⟨rfl, -⟩ := List.cons.inj heq
  exact Option.some.inj (hc.symm.trans hd)

theorem determines_of_bare {v : Json} (h : ∀ {core}, SpellsBare core v → DeterminesBare core v) {cs : List Char}
    (hcs : Spells cs v) : Determines cs v := by
  intro ds w xs ys hds hxs hys heq
  obtain ⟨left, core, right, rfl, hleft, hright, hcore⟩ := hcs.exists_bare
  obtain ⟨left', core', right', rfl, hleft', hright', hcore'⟩ := hds.exists_bare
  simp only [List.append_assoc] at heq
  -- The blanks in front are told from the value by its first character, and the blanks behind it from the stop.
  obtain ⟨rfl, hmiddle⟩ := eq_of_append (P := IsSpace) hleft hleft' (hcore.not_isSpace _) (hcore'.not_isSpace _) heq
  obtain ⟨rfl, rfl⟩ := h hcore hcore' (not_isNumeric_of_stop hright hxs) (not_isNumeric_of_stop hright' hys) hmiddle
  obtain ⟨rfl, -⟩ := eq_of_append (P := IsSpace) hright hright' hxs.not_isSpace hys.not_isSpace
    (List.append_cancel_left hmiddle)
  exact ⟨rfl, rfl⟩

theorem determinesBare_null {cs : List Char} (h : SpellsBare cs null) : DeterminesBare cs null := by
  intro ds w xs ys h' _ _ heq
  have hkind := h.kind_eq h' heq
  cases w with
  | null => exact ⟨h.trans h'.symm, rfl⟩
  | _ => cases hkind

theorem determinesBare_bool {cs : List Char} {b : Bool} (h : SpellsBare cs (bool b)) : DeterminesBare cs (bool b) := by
  intro ds w xs ys h' _ _ heq
  have hkind := h.kind_eq h' heq
  cases w with
  | bool b' =>
    obtain rfl : b = b' := by
      -- Both words are of one kind, but already their first letters tell them apart.
      rw [h, h'] at heq
      cases b <;> cases b' <;> first | rfl | exact absurd (List.cons.inj heq).1 (by decide)
    exact ⟨h.trans h'.symm, rfl⟩
  | _ => cases hkind

theorem determinesBare_str {cs : List Char} {s : String} (h : SpellsBare cs (str s)) : DeterminesBare cs (str s) := by
  intro ds w xs ys h' _ _ heq
  have hkind := h.kind_eq h' heq
  obtain ⟨cs, rfl, hs⟩ := h
  cases w with
  | str t =>
    obtain ⟨ds, rfl, ht⟩ := h'
    simp only [List.cons_append, List.append_assoc, List.nil_append] at heq
    obtain ⟨rfl, hst⟩ := hs.unique ht (List.cons.inj heq).2
    exact ⟨rfl, by rw [String.toList_inj.mp hst]⟩
  | _ => cases hkind

/-- Items or members between brackets are told from what is behind the closing one. -/
def DeterminesWithin {α : Type} (R : List Char → List α → Prop) (close : Char) (cs : List Char) (items : List α) :
    Prop :=
  ∀ {ds items' xs ys}, R ds items' → cs ++ close :: xs = ds ++ close :: ys → cs = ds ∧ items = items'

/-- Where there are none, the closing bracket comes first, and it begins none of them. -/
theorem within_unique {α : Type} {R : List Char → List α → Prop} {close : Char} {cs ds xs ys : List Char}
    {items items' : List α} (hfirst : ∀ {cs items}, R cs items → ∃ c rest, cs = c :: rest ∧ c ≠ close)
    (hitems : ∀ {cs}, R cs items → DeterminesWithin R close cs items) (h : cs = [] ∧ items = [] ∨ R cs items)
    (h' : ds = [] ∧ items' = [] ∨ R ds items') (heq : cs ++ close :: xs = ds ++ close :: ys) :
    cs = ds ∧ items = items' := by
  rcases h with ⟨rfl, rfl⟩ | h
  · rcases h' with ⟨rfl, rfl⟩ | h'
    · exact ⟨rfl, rfl⟩
    · obtain ⟨c, rest, rfl, hc⟩ := hfirst h'
      exact absurd (List.cons.inj heq).1.symm hc
  · rcases h' with ⟨rfl, rfl⟩ | h'
    · obtain ⟨c, rest, rfl, hc⟩ := hfirst h
      exact absurd (List.cons.inj heq).1 hc
    · exact hitems h h' heq

theorem SpellsItems.exists_first {cs : List Char} {items : List Json} (h : SpellsItems cs items) :
    ∃ c rest, cs = c :: rest ∧ c ≠ ']' := by
  cases h with
  | single h =>
    obtain ⟨c, rest, rfl, hc, -⟩ := h.exists_first
    exact ⟨c, rest, rfl, hc⟩
  | cons h hitems =>
    obtain ⟨c, rest, rfl, hc, -⟩ := h.exists_first
    exact ⟨c, _, rfl, hc⟩

theorem SpellsMembers.exists_first {cs : List Char} {members : List (String × Json)} (h : SpellsMembers cs members) :
    ∃ c rest, cs = c :: rest ∧ c ≠ '\x7d' := by
  cases h with
  | single hname h =>
    obtain ⟨c, rest, rfl, -, hc⟩ := hname.exists_first
    exact ⟨c, _, rfl, hc⟩
  | cons hname h hmembers =>
    obtain ⟨c, rest, rfl, -, hc⟩ := hname.exists_first
    exact ⟨c, _, rfl, hc⟩

theorem determinesBare_arr {items : List Json}
    (hitems : ∀ {cs}, SpellsItems cs items → DeterminesWithin SpellsItems ']' cs items)
    {cs : List Char} (h : SpellsBare cs (arr items)) : DeterminesBare cs (arr items) := by
  intro ds w xs ys h' _ _ heq
  have hkind := h.kind_eq h' heq
  obtain ⟨cs, rfl, h⟩ := h
  cases w with
  | arr items' =>
    obtain ⟨ds, rfl, h'⟩ := h'
    simp only [List.cons_append, List.append_assoc, List.nil_append] at heq
    obtain ⟨rfl, rfl⟩ := within_unique (R := SpellsItems) SpellsItems.exists_first hitems h h' (List.cons.inj heq).2
    exact ⟨rfl, rfl⟩
  | _ => cases hkind

theorem determinesBare_obj {members : List (String × Json)}
    (hmembers : ∀ {cs}, SpellsMembers cs members → DeterminesWithin SpellsMembers '\x7d' cs members)
    {cs : List Char} (h : SpellsBare cs (obj members)) : DeterminesBare cs (obj members) := by
  intro ds w xs ys h' _ _ heq
  have hkind := h.kind_eq h' heq
  obtain ⟨cs, rfl, h⟩ := h
  cases w with
  | obj members' =>
    obtain ⟨ds, rfl, h'⟩ := h'
    simp only [List.cons_append, List.append_assoc, List.nil_append] at heq
    obtain ⟨rfl, rfl⟩ := within_unique (R := SpellsMembers) SpellsMembers.exists_first hmembers h h'
      (List.cons.inj heq).2
    exact ⟨rfl, rfl⟩
  | _ => cases hkind

theorem determinesBare_num {cs : List Char} {n : Number} (h : SpellsBare cs (num n)) : DeterminesBare cs (num n) := by
  intro ds w xs ys h' hxs hys heq
  have hkind := h.kind_eq h' heq
  cases w with
  | num m =>
    obtain ⟨rfl, -⟩ := eq_of_append h.isNumeric h'.isNumeric hxs hys heq
    exact ⟨rfl, by rw [SpellsNumber.unique h h' rfl]⟩
  | _ => cases hkind

/-- What ends a value, and what is behind it, is told as well. -/
theorem Determines.next {cs ds xs ys : List Char} {v w : Json} {c d : Char} (h : Determines cs v) (hds : Spells ds w)
    (hc : c = ',' ∨ c = ':' ∨ c = ']' ∨ c = '\x7d') (hd : d = ',' ∨ d = ':' ∨ d = ']' ∨ d = '\x7d')
    (heq : cs ++ c :: xs = ds ++ d :: ys) : cs = ds ∧ v = w ∧ c = d ∧ xs = ys := by
  obtain ⟨rfl, rfl⟩ := h hds (isStop_cons hc xs) (isStop_cons hd ys) heq
  obtain ⟨rfl, rfl⟩ := List.cons.inj (List.append_cancel_left heq)
  exact ⟨rfl, rfl, rfl, rfl⟩

theorem determinesItems_single {v : Json} {cs : List Char} (h : Determines cs v) :
    DeterminesWithin SpellsItems ']' cs [v] := by
  intro ds items xs ys hds heq
  cases hds with
  | single h' =>
    obtain ⟨rfl, rfl, -⟩ := h.next h' (by decide) (by decide) heq
    exact ⟨rfl, rfl⟩
  | cons h' hitems' =>
    rw [List.append_assoc, List.cons_append] at heq
    obtain ⟨-, -, hmark, -⟩ := h.next h' (by decide) (by decide) heq
    exact absurd hmark (by decide)

theorem determinesItems_cons {v : Json} {items : List Json} {cs ds : List Char} (h : Determines cs v)
    (hitems : DeterminesWithin SpellsItems ']' ds items) :
    DeterminesWithin SpellsItems ']' (cs ++ ',' :: ds) (v :: items) := by
  intro es items' xs ys hes heq
  rw [List.append_assoc, List.cons_append] at heq
  cases hes with
  | single h' =>
    obtain ⟨-, -, hmark, -⟩ := h.next h' (by decide) (by decide) heq
    exact absurd hmark (by decide)
  | cons h' hitems' =>
    rw [List.append_assoc, List.cons_append] at heq
    obtain ⟨rfl, rfl, -, hrest⟩ := h.next h' (by decide) (by decide) heq
    obtain ⟨rfl, rfl⟩ := hitems hitems' hrest
    exact ⟨rfl, rfl⟩

theorem determinesMembers_single {name : String} {v : Json} {cs ds : List Char} (hname : Determines cs (str name))
    (h : Determines ds v) : DeterminesWithin SpellsMembers '\x7d' (cs ++ ':' :: ds) [(name, v)] := by
  intro es members xs ys hes heq
  rw [List.append_assoc, List.cons_append] at heq
  cases hes with
  | single hname' h' =>
    rw [List.append_assoc, List.cons_append] at heq
    obtain ⟨rfl, hnames, -, hrest⟩ := hname.next hname' (by decide) (by decide) heq
    obtain ⟨rfl, rfl, -⟩ := h.next h' (by decide) (by decide) hrest
    cases hnames
    exact ⟨rfl, rfl⟩
  | cons hname' h' hmembers' =>
    rw [List.append_assoc, List.append_assoc, List.cons_append] at heq
    obtain ⟨-, -, -, hrest⟩ := hname.next hname' (by decide) (by decide) heq
    obtain ⟨-, -, hmark, -⟩ := h.next h' (by decide) (by decide) hrest
    exact absurd hmark (by decide)

theorem determinesMembers_cons {name : String} {v : Json} {members : List (String × Json)} {cs ds es : List Char}
    (hname : Determines cs (str name)) (h : Determines ds v)
    (hmembers : DeterminesWithin SpellsMembers '\x7d' es members) :
    DeterminesWithin SpellsMembers '\x7d' (cs ++ ':' :: ds ++ ',' :: es) ((name, v) :: members) := by
  intro fs members' xs ys hfs heq
  rw [List.append_assoc, List.append_assoc, List.cons_append] at heq
  cases hfs with
  | single hname' h' =>
    rw [List.append_assoc, List.cons_append] at heq
    obtain ⟨-, -, -, hrest⟩ := hname.next hname' (by decide) (by decide) heq
    obtain ⟨-, -, hmark, -⟩ := h.next h' (by decide) (by decide) hrest
    exact absurd hmark (by decide)
  | cons hname' h' hmembers' =>
    rw [List.append_assoc, List.append_assoc, List.cons_append] at heq
    obtain ⟨rfl, hnames, -, hrest⟩ := hname.next hname' (by decide) (by decide) heq
    obtain ⟨rfl, rfl, -, hrest⟩ := h.next h' (by decide) (by decide) hrest
    obtain ⟨rfl, rfl⟩ := hmembers hmembers' hrest
    cases hnames
    exact ⟨rfl, rfl⟩

-- By recursion on the value. An item of a list ends at a comma or at the bracket, and the item itself says where.
mutual

theorem determinesBare : ∀ (v : Json) {cs : List Char}, SpellsBare cs v → DeterminesBare cs v
  | .null, _, h => determinesBare_null h
  | .bool _, _, h => determinesBare_bool h
  | .num _, _, h => determinesBare_num h
  | .str _, _, h => determinesBare_str h
  | .arr items, _, h => determinesBare_arr (determinesItems items) h
  | .obj members, _, h => determinesBare_obj (determinesMembers members) h

theorem determinesItems : ∀ (items : List Json) {cs : List Char},
    SpellsItems cs items → DeterminesWithin SpellsItems ']' cs items
  | [v], _, .single h => determinesItems_single (determines_of_bare (determinesBare v) h)
  | v :: items, _, .cons h hitems =>
    determinesItems_cons (determines_of_bare (determinesBare v) h) (determinesItems items hitems)

theorem determinesMembers : ∀ (members : List (String × Json)) {cs : List Char},
    SpellsMembers cs members → DeterminesWithin SpellsMembers '\x7d' cs members
  | [(_, v)], _, .single hname h =>
    determinesMembers_single (determines_of_bare determinesBare_str hname) (determines_of_bare (determinesBare v) h)
  | (_, v) :: members, _, .cons hname h hmembers =>
    determinesMembers_cons (determines_of_bare determinesBare_str hname) (determines_of_bare (determinesBare v) h)
      (determinesMembers members hmembers)

end

/-- A text has one value. -/
theorem Spells.unique {cs : List Char} {v w : Json} (h : Spells cs v) (h' : Spells cs w) : v = w :=
  (determines_of_bare (determinesBare v) h h' isStop_nil isStop_nil rfl).2

end Backtest.Json
