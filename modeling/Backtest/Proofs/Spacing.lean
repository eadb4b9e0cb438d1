import Backtest.Proofs.Spelling

/-!
# Blanks in names with parameters

A blank in a name stands for an underscore. In front of the parentheses this does no harm, since underscores at
the end of a name are dropped (`trimUnderscores_blanks`). Beside a parameter it does: blanks at the ends of a
parameter would be dropped, but none is left by then, and an underscore is no character of a number
(`indicator?_eq_none`). So `RSI (14)` is read and `RSI( 14)` is not; other white space, such as a tab, is no
underscore and may stand there.

`Source.read?_spaced` says this for all names and parameters.
-/

namespace Backtest

/-! ## Characters of numbers -/

/-- A character of a number, be it a word such as `inf`. -/
def isNumberChar (c : Char) : Bool := c.isAlphanum || c = '+' || c = '-' || c = '.'

section

variable {cs : List Char}

theorem isNumberChar_of_isDigit {c : Char} (h : c.isDigit = true) : isNumberChar c = true := by
  rw [isNumberChar, Char.isAlphanum, h, Bool.or_true]
  rfl

theorem isNumberChar_of_toLower {c : Char} (h : c.toLower.isLower = true) : isNumberChar c = true := by
  have hletter : c.isAlpha = true := by
    rcases eq_or_of_toLower (c := c) rfl with heq | ⟨hupper, -⟩
    · rw [← heq] at h
      rw [Char.isAlpha, h, Bool.or_true]
    · rw [Char.isAlpha, hupper, Bool.true_or]
  rw [isNumberChar, Char.isAlphanum, hletter]
  rfl

theorem mem_takeWhile_or_dropWhile {p : Char → Bool} {c : Char} (hc : c ∈ cs) :
    c ∈ cs.takeWhile p ∨ c ∈ cs.dropWhile p := by
  rwa [← List.mem_append, List.takeWhile_append_dropWhile]

theorem digits_chars (h : ¬ (cs.isEmpty || !cs.all Char.isDigit) = true) : ∀ c ∈ cs, isNumberChar c = true := by
  rw [Bool.or_eq_true, not_or, Bool.not_eq_true, Bool.not_eq_true, Bool.not_eq_false'] at h
  exact fun c hc => isNumberChar_of_isDigit (List.all_eq_true.mp h.2 c hc)

theorem natural?_chars {n : Nat} (h : Text.natural? cs = some n) : ∀ c ∈ cs, isNumberChar c = true := by
  unfold Text.natural? at h
  split at h
  · dsimp only at h
    split_ifs at h with hds
    exact List.forall_mem_cons.mpr ⟨rfl, digits_chars hds⟩
  · dsimp only at h
    split_ifs at h with hds
    exact digits_chars hds

theorem takeSign_chars (h : ∀ c ∈ (Decimal.takeSign cs).2, isNumberChar c = true) :
    ∀ c ∈ cs, isNumberChar c = true := by
  unfold Decimal.takeSign at h
  split at h
  · exact List.forall_mem_cons.mpr ⟨rfl, h⟩
  · exact List.forall_mem_cons.mpr ⟨rfl, h⟩
  · exact h

theorem exponent?_chars {e : Int} (h : Decimal.exponent? cs = some e) : ∀ c ∈ cs, isNumberChar c = true := by
  cases cs with
  | nil => exact List.forall_mem_nil _
  | cons c cs =>
    rw [Decimal.exponent?] at h
    by_cases hletter : c = 'e' ∨ c = 'E'
    · have hfirst : isNumberChar c = true := by
        rcases hletter with rfl | rfl <;> rfl
      rw [if_pos hletter] at h
      dsimp only at h
      split at h
      · cases h
      · rename_i hds
        exact List.forall_mem_cons.mpr ⟨hfirst, takeSign_chars (digits_chars hds)⟩
    · rw [if_neg hletter] at h
      cases h

theorem numeral?_chars {v : Nat × Int} (h : Decimal.numeral? cs = some v) : ∀ c ∈ cs, isNumberChar c = true := by
  have hdigits : ∀ {ds : List Char}, ∀ c ∈ ds.takeWhile Char.isDigit, isNumberChar c = true :=
    fun c hc => isNumberChar_of_isDigit (List.mem_takeWhile_imp hc)
  have hrest : ∀ c ∈ cs.dropWhile Char.isDigit, isNumberChar c = true := by
    unfold Decimal.numeral? at h
    generalize cs.dropWhile Char.isDigit = rest at h
    dsimp only at h
    split at h
    · rename_i r
      split_ifs at h
      obtain ⟨e, he, -⟩ := Option.map_eq_some_iff.mp h
      refine List.forall_mem_cons.mpr ⟨rfl, fun c hc => ?_⟩
      rcases mem_takeWhile_or_dropWhile hc with hc | hc
      · exact hdigits c hc
      · exact exponent?_chars he c hc
    · split_ifs at h
      obtain ⟨e, he, -⟩ := Option.map_eq_some_iff.mp h
      exact exponent?_chars he
  intro c hc
  rcases mem_takeWhile_or_dropWhile hc with hc | hc
  · exact hdigits c hc
  · exact hrest c hc

theorem readFloat_chars {x : Float} (h : Decimal.readFloat cs = .ok x) : ∀ c ∈ cs, isNumberChar c = true := by
  have hword : ∀ {word ds : List Char}, (∀ c ∈ word, c.isLower = true) → Text.lower ds = word →
      ∀ c ∈ ds, isNumberChar c = true := by
    rintro word ds hletters rfl c hc
    exact isNumberChar_of_toLower (hletters _ (List.mem_map_of_mem hc))
  apply takeSign_chars
  unfold Decimal.readFloat at h
  dsimp only at h
  split_ifs at h with hempty hinf hnan
  · rw [Bool.or_eq_true, decide_eq_true_iff, decide_eq_true_iff] at hinf
    rcases hinf with hinf | hinf
    · exact hword (List.all_eq_true.mp rfl) hinf
    · exact hword (List.all_eq_true.mp rfl) hinf
  · exact hword (List.all_eq_true.mp rfl) hnan
  · split at h
    · rename_i hnumeral
      exact numeral?_chars hnumeral
    · cases h

end

namespace Token

variable {parameters : List (List Char)}

/-! ## Parameters that are read -/

theorem periods?_chars {ns : List Nat} (h : periods? parameters = some ns) :
    ∀ p ∈ parameters, ∀ c ∈ p, isNumberChar c = true := by
  induction parameters generalizing ns with
  | nil => exact List.forall_mem_nil _
  | cons p ps ih =>
    rw [periods?, List.mapM_cons] at h
    obtain ⟨n, hn, h⟩ := Option.bind_eq_some_iff.mp h
    obtain ⟨ms, hms, -⟩ := Option.bind_eq_some_iff.mp h
    exact List.forall_mem_cons.mpr ⟨natural?_chars hn, ih hms⟩

theorem hundredths?_chars {cs : List Char} {n : Nat} (h : hundredths? cs = some n) :
    ∀ c ∈ cs, isNumberChar c = true := by
  unfold hundredths? at h
  split at h
  · cases h
  · rename_i hread
    exact readFloat_chars hread

theorem bollinger?_chars {i : Indicator} (h : bollinger? parameters = some i) :
    ∀ p ∈ parameters, ∀ c ∈ p, isNumberChar c = true := by
  match parameters, h with
  | [], _ => exact List.forall_mem_nil _
  | [p], h =>
    obtain ⟨n, hn, -⟩ := Option.bind_eq_some_iff.mp h
    exact List.forall_mem_cons.mpr ⟨natural?_chars hn, List.forall_mem_nil _⟩
  | [p, m], h =>
    obtain ⟨hundredths, hm, h⟩ := Option.bind_eq_some_iff.mp h
    obtain ⟨n, hn, -⟩ := Option.bind_eq_some_iff.mp h
    exact List.forall_mem_cons.mpr ⟨natural?_chars hn,
      List.forall_mem_cons.mpr ⟨hundredths?_chars hm, List.forall_mem_nil _⟩⟩

/-- Whatever the name is, its parameters are numbers. -/
theorem indicator?_chars {name : String} {s : Source} (h : indicator? name parameters = some s) :
    ∀ p ∈ parameters, ∀ c ∈ p, isNumberChar c = true := by
  cases hperiods : periods? parameters with
  | some ns => exact periods?_chars hperiods
  | none =>
    cases hbands : bollinger? parameters with
    | some i => exact bollinger?_chars hbands
    | none =>
      have hnone : indicator? name parameters = none := by
        unfold indicator?
        split <;> simp only [periodOrDefault?, singlePeriod?, macd?, hperiods, hbands] <;> rfl
      rw [hnone] at h
      cases h

end Token

/-! ## What stands in parentheses -/

theorem Text.mem_trim {c : Char} {cs : List Char} (hc : c ∈ cs) (hblank : isBlank c = false) : c ∈ trim cs := by
  have hdrop : ∀ {ds : List Char}, c ∈ ds → c ∈ ds.dropWhile isBlank := by
    intro ds hds
    refine (mem_takeWhile_or_dropWhile hds).resolve_left fun htake => ?_
    rw [List.mem_takeWhile_imp htake] at hblank
    cases hblank
  exact List.mem_reverse.mpr (hdrop (List.mem_reverse.mpr (hdrop hc)))

/-- What is read of a text with parentheses: the name in front of the first parenthesis, and only numbers,
commas and blanks behind. -/
theorem chars_of_read? {text : String} {name inside : List Char} {s : Source}
    (hfold : Token.underscored (Text.upper (Text.trim text.toList)) = name ++ '(' :: (inside ++ [')']))
    (h : Source.read? text = some s) :
    '(' ∉ name ∧ ∀ c ∈ inside, c = ',' ∨ Text.isBlank c = true ∨ isNumberChar c = true := by
  have hparen : '(' ∈ name ++ '(' :: (inside ++ [')']) := List.mem_append_right _ List.mem_cons_self
  have hread : ∀ {name inside : List Char}, '(' ∉ name →
      ((Token.split? (name ++ '(' :: (inside ++ [')']))).bind fun parts =>
        Token.indicator? (String.ofList parts.1) parts.2) = some s →
      ∀ c ∈ inside, c = ',' ∨ Text.isBlank c = true ∨ isNumberChar c = true := by
    intro name inside hname h
    rw [split?_paren hname] at h
    have hchars := Token.indicator?_chars h
    have hpieces : ∀ piece ∈ Text.splitOn ',' inside, ∀ c ∈ piece,
        c = ',' ∨ Text.isBlank c = true ∨ isNumberChar c = true := by
      intro piece hpiece c hc
      cases hblank : Text.isBlank c with
      | true => exact .inr (.inl rfl)
      | false => exact .inr (.inr (hchars _ (List.mem_map_of_mem hpiece) c (Text.mem_trim hc hblank)))
    rw [← @List.intercalate_splitOn _ inside _ _ ',', ← Text.splitOn_eq]
    exact forall_mem_intercalate (.inl rfl) hpieces
  rw [read?_paren hfold hparen] at h
  -- A name with a parenthesis of its own would end there, and this one would stand among the parameters.
  have hname : '(' ∉ name := by
    intro hmem
    obtain ⟨front, back, rfl, hfront⟩ := List.eq_append_cons_of_mem hmem
    have hsplit : front ++ '(' :: back ++ '(' :: (inside ++ [')']) =
        front ++ '(' :: (back ++ '(' :: inside ++ [')']) := by
      simp only [List.append_assoc, List.cons_append]
    rw [hsplit] at h
    rcases hread hfront h '(' (List.mem_append_right _ List.mem_cons_self) with hc | hc | hc
    all_goals exact absurd hc (by decide)
  exact ⟨hname, hread hname h⟩

/-! ## Blanks -/

namespace Text

theorem trim_paren (front inside : List Char) :
    trim (front ++ '(' :: (inside ++ [')'])) = trimLeft front ++ '(' :: (inside ++ [')']) := by
  have hleft : trimLeft (front ++ '(' :: (inside ++ [')'])) = trimLeft front ++ '(' :: (inside ++ [')']) := by
    unfold trimLeft
    rw [List.dropWhile_append]
    split_ifs with hempty
    · rw [List.isEmpty_iff.mp hempty]
      rfl
    · rfl
  have hright : ∀ cs : List Char, trimRight (cs ++ [')']) = cs ++ [')'] := by
    intro cs
    unfold trimRight
    rw [List.reverse_concat, List.dropWhile_cons_of_neg (by decide), List.reverse_cons, List.reverse_reverse]
  rw [trim, hleft, ← List.cons_append, ← List.append_assoc, hright]

/-- Blanks at the end of a text are left, unless there is nothing in front of them. -/
theorem exists_trimLeft_blanks (cs : List Char) (n : Nat) :
    ∃ k, trimLeft (cs ++ List.replicate n ' ') = trimLeft cs ++ List.replicate k ' ' := by
  unfold trimLeft
  rw [List.dropWhile_append]
  split_ifs with hempty
  · rw [List.isEmpty_iff.mp hempty, List.dropWhile_replicate, if_pos (by decide)]
    exact ⟨0, rfl⟩
  · exact ⟨n, rfl⟩

end Text

theorem mem_intercalate {c separator : Char} {piece : List Char} {pieces : List (List Char)}
    (hpiece : piece ∈ pieces) (hc : c ∈ piece) : c ∈ [separator].intercalate pieces := by
  induction pieces with
  | nil => cases hpiece
  | cons first rest ih =>
    cases rest with
    | nil =>
      rw [List.intercalate_singleton]
      rwa [List.mem_singleton.mp hpiece] at hc
    | cons next rest =>
      rw [List.intercalate_cons_cons, List.mem_append, List.mem_append]
      rcases List.mem_cons.mp hpiece with rfl | hpiece
      · exact .inl (.inl hc)
      · exact .inr (ih hpiece)

namespace Token

/-- So many blanks. -/
def blanks (n : Nat) : String := String.ofList (List.replicate n ' ')

/-- A parameter with blanks on either side. -/
structure Spaced where
  left : Nat
  text : String
  right : Nat

namespace Spaced

def spelled (p : Spaced) : String := blanks p.left ++ p.text ++ blanks p.right

def isTight (p : Spaced) : Bool := p.left = 0 && p.right = 0

theorem spelled_of_isTight {p : Spaced} (h : p.isTight = true) : p.spelled = p.text := by
  rw [isTight, Bool.and_eq_true, decide_eq_true_iff, decide_eq_true_iff] at h
  have hnone : blanks 0 = "" := rfl
  rw [spelled, h.1, h.2, hnone, String.empty_append, String.append_empty]

theorem blank_mem_spelled {p : Spaced} (h : ¬ p.isTight = true) : ' ' ∈ p.spelled.toList := by
  rw [isTight, Bool.and_eq_true, decide_eq_true_iff, decide_eq_true_iff, not_and_or] at h
  rw [spelled, blanks, blanks, String.toList_append, String.toList_append, String.toList_ofList,
    String.toList_ofList, List.mem_append, List.mem_append, List.mem_replicate, List.mem_replicate]
  rcases h with h | h
  · exact .inl (.inl ⟨h, rfl⟩)
  · exact .inr ⟨h, rfl⟩

end Spaced

theorem underscored_upper_append (cs ds : List Char) :
    underscored (Text.upper (cs ++ ds)) = underscored (Text.upper cs) ++ underscored (Text.upper ds) := by
  rw [Text.upper, List.map_append, underscored, List.map_append]
  rfl

theorem underscored_upper_blanks (n : Nat) :
    underscored (Text.upper (List.replicate n ' ')) = List.replicate n '_' := by
  rw [Text.upper, List.map_replicate, underscored, List.map_replicate]
  rfl

theorem trimUnderscores_blanks (cs : List Char) (n : Nat) :
    trimUnderscores (cs ++ List.replicate n '_') = trimUnderscores cs := by
  have hdrop : ∀ c ∈ List.replicate n '_', decide (c = '_') = true :=
    fun c hc => decide_eq_true (List.eq_of_mem_replicate hc)
  rw [trimUnderscores, trimUnderscores, List.reverse_append, List.reverse_replicate,
    List.dropWhile_append_of_pos hdrop]

/-- How a name with parameters is folded: its parentheses are left alone. -/
theorem folded_call (name : String) (parameters : List String) :
    underscored (Text.upper (Text.trim (Indicator.call name parameters).toList)) =
      underscored (Text.upper (Text.trimLeft name.toList)) ++
        '(' :: (underscored (Text.upper ([','].intercalate (parameters.map String.toList))) ++ [')']) := by
  rw [toList_call, Text.trim_paren, underscored_upper_append, ← List.singleton_append, underscored_upper_append,
    underscored_upper_append]
  rfl

end Token

namespace Source

open Token (blanks Spaced)

/-- Blanks in front of the parentheses are of no account. -/
theorem read?_blanks_before (name : String) (before : Nat) (parameters : List String) :
    read? (Indicator.call (name ++ blanks before) parameters) = read? (Indicator.call name parameters) := by
  obtain ⟨k, htrim⟩ := Text.exists_trimLeft_blanks name.toList before
  have hfold := Token.folded_call name parameters
  have hfold' := Token.folded_call (name ++ blanks before) parameters
  have hname : (name ++ blanks before).toList = name.toList ++ List.replicate before ' ' := by
    rw [blanks, String.toList_append, String.toList_ofList]
  rw [hname, htrim, Token.underscored_upper_append, Token.underscored_upper_blanks] at hfold'
  generalize Token.underscored (Text.upper (Text.trimLeft name.toList)) = front at hfold hfold'
  generalize Token.underscored (Text.upper ([','].intercalate (parameters.map String.toList))) = inside
    at hfold hfold'
  by_cases hparen : '(' ∈ front
  · have hnone : read? (Indicator.call name parameters) = none :=
      Option.eq_none_iff_forall_ne_some.mpr fun s h => (chars_of_read? hfold h).1 hparen
    have hnone' : read? (Indicator.call (name ++ blanks before) parameters) = none :=
      Option.eq_none_iff_forall_ne_some.mpr fun s h =>
        (chars_of_read? hfold' h).1 (List.mem_append_left _ hparen)
    rw [hnone, hnone']
  · have hparen' : '(' ∉ front ++ List.replicate k '_' := by
      rw [List.mem_append, not_or]
      exact ⟨hparen, fun h => absurd (List.eq_of_mem_replicate h) (by decide)⟩
    have hmem : ∀ cs : List Char, '(' ∈ cs ++ '(' :: (inside ++ [')']) :=
      fun cs => List.mem_append_right _ List.mem_cons_self
    rw [read?_paren hfold (hmem _), read?_paren hfold' (hmem _), split?_paren hparen, split?_paren hparen',
      Token.trimUnderscores_blanks]

/-- Blanks beside a parameter become underscores, which no number has. -/
theorem read?_blanks_inside (name : String) {parameters : List Spaced}
    (h : ∃ p ∈ parameters, ¬ p.isTight = true) :
    read? (Indicator.call name (parameters.map Spaced.spelled)) = none := by
  obtain ⟨p, hp, hloose⟩ := h
  have hblank : ' ' ∈ [','].intercalate ((parameters.map Spaced.spelled).map String.toList) :=
    mem_intercalate (List.mem_map_of_mem (List.mem_map_of_mem hp)) (Spaced.blank_mem_spelled hloose)
  have hunderscore : '_' ∈ Token.underscored
      (Text.upper ([','].intercalate ((parameters.map Spaced.spelled).map String.toList))) :=
    List.mem_map.mpr ⟨' ', List.mem_map.mpr ⟨' ', hblank, rfl⟩, rfl⟩
  refine Option.eq_none_iff_forall_ne_some.mpr fun s hread => ?_
  rcases (chars_of_read? (Token.folded_call _ _) hread).2 '_' hunderscore with hc | hc | hc
  all_goals exact absurd hc (by decide)

/-- **Where blanks may stand.** Any number of blanks may stand in front of the parentheses of a name with
parameters, whatever is read without them. With a blank on either side of any parameter nothing is read. -/
theorem read?_spaced (name : String) (before : Nat) (parameters : List Spaced) :
    read? (Indicator.call (name ++ blanks before) (parameters.map Spaced.spelled)) =
      if ∀ p ∈ parameters, p.isTight = true then read? (Indicator.call name (parameters.map Spaced.text))
      else none := by
  rw [read?_blanks_before]
  split_ifs with htight
  · rw [List.map_congr_left fun p hp => Spaced.spelled_of_isTight (htight p hp)]
  · push Not at htight
    exact read?_blanks_inside name htight

/-- A blank beside a parameter is not like a blank in front of the parentheses, nor like a tab. -/
theorem read?_innerBlank :
    read? (Indicator.call "RSI" ["14"]) = some (.indicator (.rsi 14) .value) ∧
      read? (Indicator.call "RSI" [(Spaced.mk 1 "14" 0).spelled]) = none ∧
      Indicator.call "RSI" [(Spaced.mk 1 "14" 0).spelled] = "RSI( 14)" ∧
      read? "RSI (14)" = some (.indicator (.rsi 14) .value) ∧
      read? "RSI(\t14)" = some (.indicator (.rsi 14) .value) := by
  decide

end Source

end Backtest
