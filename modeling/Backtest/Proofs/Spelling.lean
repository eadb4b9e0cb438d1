import Backtest.Proofs.Multiplier
import Backtest.Proofs.SoundRule

/-!
# Names are read back

The name that the program writes for a source is one that it reads as that source, if a name can stand for the
source at all: `Source.read?_text_of_isNamed`. Sound sources are such (`Source.read?_text`), and so is whatever was
read from another name: `Source.read?_canonical`. A name is made of capital letters, digits and a few signs
(`IsToken`), so folding and trimming leave it alone, and it begins like no number (`constant?_eq_none`). A name with
parameters is split where it was put together (`split?_call`), and then it is up to the reader of its indicator
(`read?_call`).
-/

namespace Backtest

/-! ## Tokens -/

/-- A character of a name with its parameters. -/
def isTokenChar (c : Char) : Bool :=
  c.isUpper || c.isDigit || c = '_' || c = '(' || c = ',' || c = '.' || c = ')'

/-- What a name looks like: it begins with a capital letter, and with none that begins a number. -/
structure IsToken (cs : List Char) : Prop where
  chars : ∀ c ∈ cs, isTokenChar c = true
  first : ∃ c rest, cs = c :: rest ∧ c.isUpper = true ∧ c ≠ 'I' ∧ c ≠ 'N'

theorem isPlain_of_isTokenChar {c : Char} (h : isTokenChar c = true) : IsPlain c := by
  simp only [isTokenChar, Bool.or_eq_true, decide_eq_true_eq] at h
  rcases h with ((((((h | h) | rfl) | rfl) | rfl) | rfl) | rfl)
  · exact isPlain_of_isUpper h
  · exact isPlain_of_isDigit h
  all_goals decide

namespace IsToken

variable {cs : List Char}

theorem isPlain (h : IsToken cs) : ∀ c ∈ cs, IsPlain c :=
  fun c hc => isPlain_of_isTokenChar (h.chars c hc)

theorem folded_eq (h : IsToken cs) : Token.underscored (Text.upper (Text.trim cs)) = cs := by
  have hid : ∀ c ∈ cs, (if c = ' ' ∨ c = '-' then '_' else c) = c := by
    intro c hc
    apply if_neg
    rintro (rfl | rfl)
    · exact absurd (h.chars ' ' hc) (by decide)
    · exact absurd (h.chars '-' hc) (by decide)
  rw [Text.trim_eq_self h.isPlain, Text.upper_eq_self h.isPlain, Token.underscored, List.map_congr_left hid,
    List.map_id']

end IsToken

/-- A name is no number. -/
theorem constant?_eq_none {text : String} (h : IsToken text.toList) : Candidate.constant? text = none := by
  obtain ⟨c, rest, heq, hc, hi, hn⟩ := h.first
  rw [Candidate.constant?, Text.trim_eq_self h.isPlain, heq, Decimal.readFloat_name hc hi hn]

/-! ## Parameters -/

theorem Text.splitOn_eq (separator : Char) (cs : List Char) :
    Text.splitOn separator cs = cs.splitOn separator := by
  induction cs with
  | nil => rfl
  | cons c cs ih =>
    rw [Text.splitOn, List.splitOn_cons_eq_if_modifyHead, ih]
    by_cases hc : c = separator
    · rw [if_pos hc, if_pos (beq_iff_eq.mpr hc)]
    · rw [if_neg hc, if_neg (by rwa [beq_iff_eq])]
      have hne := List.splitOn_ne_nil separator cs
      cases hpieces : cs.splitOn separator with
      | nil => exact absurd hpieces hne
      | cons piece rest => rfl

theorem forall_mem_intercalate {p : Char → Prop} {separator : Char} (hseparator : p separator)
    {pieces : List (List Char)} (hpieces : ∀ piece ∈ pieces, ∀ c ∈ piece, p c) :
    ∀ c ∈ [separator].intercalate pieces, p c := by
  induction pieces with
  | nil =>
    intro c hc
    cases hc
  | cons piece rest ih =>
    have hrest := ih fun piece hpiece => hpieces piece (List.mem_cons_of_mem _ hpiece)
    cases rest with
    | nil =>
      rw [List.intercalate_singleton]
      exact hpieces piece List.mem_cons_self
    | cons next rest =>
      intro c hc
      rw [List.intercalate_cons_cons, List.mem_append, List.mem_append, List.mem_singleton] at hc
      rcases hc with (hc | rfl) | hc
      · exact hpieces piece List.mem_cons_self c hc
      · exact hseparator
      · exact hrest c hc

/-- A name that takes parameters: it has none yet, and no underscore at its end. -/
structure IsCallName (name : String) : Prop where
  token : IsToken name.toList
  noParen : '(' ∉ name.toList
  trimmed : Token.trimUnderscores name.toList = name.toList

/-- A parameter as it is written: digits, perhaps with a point. -/
def IsParameter (parameter : String) : Prop :=
  ∀ c ∈ parameter.toList, c.isDigit = true ∨ c = '.'

/-- What has parameters in parentheses is split at the first of these. -/
theorem split?_paren {name inside : List Char} (h : '(' ∉ name) :
    Token.split? (name ++ '(' :: (inside ++ [')'])) =
      some (Token.trimUnderscores name, (Text.splitOn ',' inside).map Text.trim) := by
  have hname : ∀ c ∈ name, decide (c ≠ '(') = true := by
    intro c hc
    rw [decide_eq_true_iff]
    rintro rfl
    exact h hc
  have htake : (name ++ '(' :: (inside ++ [')'])).takeWhile (fun c => decide (c ≠ '(')) = name := by
    rw [List.takeWhile_append_of_pos hname]
    exact List.append_nil _
  have hdrop : (name ++ '(' :: (inside ++ [')'])).dropWhile (fun c => decide (c ≠ '(')) =
      '(' :: (inside ++ [')']) := by
    rw [List.dropWhile_append_of_pos hname]
    rfl
  simp only [Token.split?, htake, hdrop, List.getLast?_concat, List.dropLast_concat, if_true]

/-- What has parameters is no price and no volume. -/
theorem read?_paren {text : String} {cs : List Char}
    (hfold : Token.underscored (Text.upper (Text.trim text.toList)) = cs) (hparen : '(' ∈ cs) :
    Source.read? text =
      (Token.split? cs).bind fun parts => Token.indicator? (String.ofList parts.1) parts.2 := by
  have hword : ∀ {word : String}, '(' ∉ word.toList → String.ofList cs ≠ word := by
    rintro word h rfl
    exact h (by rwa [String.toList_ofList])
  simp only [Source.read?, hfold]
  split
  · rename_i heq
    exact absurd heq (hword (by decide))
  · rename_i heq
    exact absurd heq (hword (by decide))
  · rename_i heq
    exact absurd heq (hword (by decide))
  · rfl

section Call

variable {name : String} {parameters : List String}

theorem IsParameter.not_comma {parameter : String} (h : IsParameter parameter) : ',' ∉ parameter.toList := by
  intro hc
  rcases h ',' hc with hdigit | heq
  · exact absurd hdigit (by decide)
  · exact absurd heq (by decide)

theorem IsParameter.trim_eq {parameter : String} (h : IsParameter parameter) :
    Text.trim parameter.toList = parameter.toList := by
  refine Text.trim_eq_self fun c hc => ?_
  rcases h c hc with hdigit | rfl
  · exact isPlain_of_isDigit hdigit
  · decide

theorem toList_call : (Indicator.call name parameters).toList =
    name.toList ++ '(' :: ([','].intercalate (parameters.map String.toList) ++ [')']) := by
  have hopen : "(".toList = ['('] := rfl
  have hclose : ")".toList = [')'] := rfl
  have hcomma : ",".toList = [','] := rfl
  simp only [Indicator.call, String.toList_append, String.toList_intercalate, hopen, hclose, hcomma,
    List.append_assoc, List.cons_append, List.nil_append]

theorem isToken_call (hname : IsCallName name) (hparameters : ∀ p ∈ parameters, IsParameter p) :
    IsToken (Indicator.call name parameters).toList := by
  rw [toList_call]
  constructor
  · intro c hc
    rw [List.mem_append, List.mem_cons, List.mem_append, List.mem_singleton] at hc
    rcases hc with hc | rfl | hc | rfl
    · exact hname.token.chars c hc
    · rfl
    · refine forall_mem_intercalate (p := fun c => isTokenChar c = true) rfl ?_ c hc
      intro piece hpiece d hd
      obtain ⟨p, hp, rfl⟩ := List.mem_map.mp hpiece
      rcases hparameters p hp d hd with hdigit | rfl
      · rw [isTokenChar, hdigit, Bool.or_true]
        rfl
      · rfl
    · rfl
  · obtain ⟨c, rest, heq, hfirst⟩ := hname.token.first
    exact ⟨c, rest ++ _, by rw [heq, List.cons_append], hfirst⟩

/-- A name with parameters is split where it was put together. -/
theorem split?_call (hname : IsCallName name) (hne : parameters ≠ [])
    (hparameters : ∀ p ∈ parameters, IsParameter p) :
    Token.split? (Indicator.call name parameters).toList =
      some (name.toList, parameters.map String.toList) := by
  have hpieces : ([','].intercalate (parameters.map String.toList)).splitOn ',' =
      parameters.map String.toList := by
    refine List.splitOn_intercalate ',' ?_ (by simpa using hne)
    intro piece hpiece
    obtain ⟨p, hp, rfl⟩ := List.mem_map.mp hpiece
    exact (hparameters p hp).not_comma
  have htrim : (parameters.map String.toList).map Text.trim = parameters.map String.toList := by
    rw [List.map_map]
    exact List.map_congr_left fun p hp => (hparameters p hp).trim_eq
  rw [toList_call, split?_paren hname.noParen, hname.trimmed, Text.splitOn_eq, hpieces, htrim]

/-- A name with parameters is read by the reader of its indicator. -/
theorem read?_call (hname : IsCallName name) (hne : parameters ≠ [])
    (hparameters : ∀ p ∈ parameters, IsParameter p) :
    Source.read? (Indicator.call name parameters) =
      Token.indicator? name (parameters.map String.toList) := by
  have hparen : '(' ∈ (Indicator.call name parameters).toList := by
    rw [toList_call]
    exact List.mem_append_right _ List.mem_cons_self
  rw [read?_paren (isToken_call hname hparameters).folded_eq hparen, split?_call hname hne hparameters]
  show Token.indicator? (String.ofList name.toList) _ = _
  rw [String.ofList_toList]

end Call

/-! ## Names of sources -/

theorem isParameter_natText (n : Nat) : IsParameter (Decimal.natText n) := by
  intro c hc
  rw [toList_natText] at hc
  exact .inl (isDigit_toDigits hc)

theorem isParameter_hundredthsText (n : Nat) : IsParameter (Indicator.hundredthsText n) := by
  intro c hc
  simp only [Indicator.hundredthsText] at hc
  split_ifs at hc
  · exact isParameter_natText _ c hc
  · rw [String.toList_append, String.toList_append, List.mem_append, List.mem_append] at hc
    rcases hc with (hc | hc) | hc
    · exact isParameter_natText _ c hc
    · exact .inr (List.mem_singleton.mp hc)
    · exact isParameter_natText _ c hc
  · rw [String.toList_append, String.toList_append, String.toList_append, List.mem_append, List.mem_append,
      List.mem_append] at hc
    rcases hc with ((hc | hc) | hc) | hc
    · exact isParameter_natText _ c hc
    · exact .inr (List.mem_singleton.mp hc)
    · exact isParameter_natText _ c hc
    · exact isParameter_natText _ c hc

theorem isCallName_macdName (field : Field) : IsCallName (Source.macdName field) := by
  cases field <;> exact ⟨⟨List.all_eq_true.mp rfl, _, _, rfl, by decide⟩, by decide, rfl⟩

theorem isCallName_bandName (field : Field) : IsCallName (Source.bandName field) := by
  cases field <;> exact ⟨⟨List.all_eq_true.mp rfl, _, _, rfl, by decide⟩, by decide, rfl⟩

theorem isCallName_period {name : String} (h : name ∈ ["SMA", "EMA", "RSI", "ATR"]) : IsCallName name := by
  simp only [List.mem_cons, List.not_mem_nil, or_false] at h
  rcases h with rfl | rfl | rfl | rfl
  all_goals exact ⟨⟨List.all_eq_true.mp rfl, _, _, rfl, by decide⟩, by decide, rfl⟩

/-- Whatever a source is, its text looks like a name. -/
theorem Source.isToken_text (s : Source) : IsToken s.text.toList := by
  have hperiod : ∀ {name}, name ∈ ["SMA", "EMA", "RSI", "ATR"] → ∀ n,
      IsToken (Indicator.call name [Decimal.natText n]).toList := by
    intro name hname n
    refine isToken_call (isCallName_period hname) fun p hp => ?_
    rw [List.mem_singleton.mp hp]
    exact isParameter_natText n
  rcases s with _ | _ | ⟨i, field⟩
  · exact ⟨List.all_eq_true.mp rfl, _, _, rfl, by decide⟩
  · exact ⟨List.all_eq_true.mp rfl, _, _, rfl, by decide⟩
  · cases i with
    | sma n => exact hperiod (by simp) n
    | ema n => exact hperiod (by simp) n
    | rsi n => exact hperiod (by simp) n
    | atr n => exact hperiod (by simp) n
    | macd fast slow signal =>
      rw [Source.text]
      split_ifs
      · exact (isCallName_macdName field).token
      · refine isToken_call (isCallName_macdName field) ?_
        simp [isParameter_natText]
    | bollinger n hundredths =>
      refine isToken_call (isCallName_bandName field) ?_
      simp [isParameter_natText, isParameter_hundredthsText]

/-! ## Reading a name back -/

theorem natural?_natText {n : Nat} (h : n < 2 ^ 64) : Text.natural? (Decimal.natText n).toList = some n := by
  rw [toList_natText]
  exact natural?_toDigits h

/-- Periods are read back in their order. -/
theorem periods?_natText {ns : List Nat} (h : ∀ n ∈ ns, n < 2 ^ 64) :
    Token.periods? ((ns.map Decimal.natText).map String.toList) = some ns := by
  induction ns with
  | nil => rfl
  | cons n ns ih =>
    rw [Token.periods?] at ih ⊢
    rw [List.map_cons, List.map_cons, List.mapM_cons, natural?_natText (h n List.mem_cons_self),
      ih fun m hm => h m (List.mem_cons_of_mem n hm)]
    rfl

theorem read?_period {name : String} (hname : name ∈ ["SMA", "EMA", "RSI", "ATR"]) (n : Nat) :
    Source.read? (Indicator.call name [Decimal.natText n]) =
      Token.indicator? name [(Decimal.natText n).toList] := by
  refine read?_call (isCallName_period hname) (by simp) fun p hp => ?_
  rw [List.mem_singleton.mp hp]
  exact isParameter_natText n

/-- Periods and a multiplier of bands are read back. -/
theorem bollinger?_text {n hundredths : Nat} (h : (Indicator.bollinger n hundredths).HasWords) :
    Token.bollinger? [(Decimal.natText n).toList, (Indicator.hundredthsText hundredths).toList] =
      some (.bollinger n hundredths) := by
  rw [Token.bollinger?, hundredths?_hundredthsText (h.multiplier _ _ rfl),
    natural?_natText (h.periods n List.mem_cons_self)]
  rfl

theorem macd?_text {fast slow signal : Nat} (h : (Indicator.macd fast slow signal).HasWords) :
    Token.macd? [(Decimal.natText fast).toList, (Decimal.natText slow).toList,
      (Decimal.natText signal).toList] = some (.macd fast slow signal) := by
  have hperiods : Token.periods? (([fast, slow, signal].map Decimal.natText).map String.toList) = some _ :=
    periods?_natText h.periods
  simp only [List.map_cons, List.map_nil] at hperiods
  rw [Token.macd?, hperiods]
  rfl

namespace Source

theorem field_eq_value {i : Indicator} {field : Field} (hi : i.hasField .value = true)
    (hfield : i.hasField field = true) : field = .value := by
  cases i <;> cases field <;> simp_all only [Indicator.hasField, Bool.false_eq_true]

/-- An indicator of one value is read back with its period. -/
theorem read?_value_text {i : Indicator} {field : Field} (h : (Source.indicator i field).IsNamed)
    (hi : i.hasField .value = true) : read? (Source.indicator i field).text = some (.indicator i field) := by
  have hone : ∀ {n}, Candidate.periods i = [n] → Token.periods? [(Decimal.natText n).toList] = some [n] := by
    intro n hn
    have hall : ∀ m ∈ [n], m < 2 ^ 64 := hn ▸ h.2.periods
    exact periods?_natText hall
  obtain rfl := field_eq_value hi h.1
  cases i with
  | sma n =>
    rw [show Source.text _ = Indicator.call "SMA" _ from rfl, read?_period (by simp)]
    simp only [Token.indicator?, Token.singlePeriod?, hone rfl]
    rfl
  | ema n =>
    rw [show Source.text _ = Indicator.call "EMA" _ from rfl, read?_period (by simp)]
    simp only [Token.indicator?, Token.singlePeriod?, hone rfl]
    rfl
  | rsi n =>
    rw [show Source.text _ = Indicator.call "RSI" _ from rfl, read?_period (by simp)]
    simp only [Token.indicator?, Token.periodOrDefault?, hone rfl]
    rfl
  | atr n =>
    rw [show Source.text _ = Indicator.call "ATR" _ from rfl, read?_period (by simp)]
    simp only [Token.indicator?, Token.periodOrDefault?, hone rfl]
    rfl
  | macd => cases hi
  | bollinger => cases hi

/-- The usual divergence goes without its periods, and any other one is read with them. -/
theorem read?_macd_text {fast slow signal : Nat} {field : Field}
    (h : (Source.indicator (.macd fast slow signal) field).IsNamed) :
    read? (Source.indicator (.macd fast slow signal) field).text =
      some (.indicator (.macd fast slow signal) field) := by
  obtain ⟨hfield, hwords⟩ := h
  rw [Source.text]
  split_ifs with husual
  · rw [husual]
    cases field with
    | macdLine => rfl
    | macdSignal => rfl
    | macdHistogram => rfl
    | _ => cases hfield
  · rw [Indicator.macdCall, read?_call (isCallName_macdName field) (by simp) (by simp [isParameter_natText])]
    simp only [List.map_cons, List.map_nil]
    have hmacd := macd?_text hwords
    cases field with
    | macdLine =>
      simp only [macdName, Token.indicator?, hmacd]
      rfl
    | macdSignal =>
      simp only [macdName, Token.indicator?, hmacd]
      rfl
    | macdHistogram =>
      simp only [macdName, Token.indicator?, hmacd]
      rfl
    | _ => cases hfield

theorem read?_band_text {n hundredths : Nat} {field : Field}
    (h : (Source.indicator (.bollinger n hundredths) field).IsNamed) :
    read? (Source.indicator (.bollinger n hundredths) field).text =
      some (.indicator (.bollinger n hundredths) field) := by
  obtain ⟨hfield, hwords⟩ := h
  rw [Source.text, Indicator.bandCall, read?_call (isCallName_bandName field) (by simp)
    (by simp [isParameter_natText, isParameter_hundredthsText])]
  simp only [List.map_cons, List.map_nil]
  have hband := bollinger?_text hwords
  cases field with
  | bandUpper =>
    simp only [bandName, Token.indicator?, hband]
    rfl
  | bandMiddle =>
    simp only [bandName, Token.indicator?, hband]
    rfl
  | bandLower =>
    simp only [bandName, Token.indicator?, hband]
    rfl
  | _ => cases hfield

/-- A source with a field that it has and numbers that can be read is read back from its text. -/
theorem read?_text_of_isNamed {s : Source} (h : s.IsNamed) : read? s.text = some s := by
  rcases s with _ | _ | ⟨i, field⟩
  · rfl
  · rfl
  · cases i with
    | sma n => exact read?_value_text h rfl
    | ema n => exact read?_value_text h rfl
    | rsi n => exact read?_value_text h rfl
    | atr n => exact read?_value_text h rfl
    | macd fast slow signal => exact read?_macd_text h
    | bollinger n hundredths => exact read?_band_text h

theorem IsSound.isNamed {s : Source} (h : s.IsSound) : s.IsNamed := by
  cases s with
  | price => trivial
  | volume => trivial
  | indicator i field =>
    obtain ⟨hperiods, -, hband⟩ := Candidate.hasSoundParameters_iff.mp h.2
    refine ⟨h.1, fun n hn => ?_, fun n hundredths hi => (hband n hundredths hi).2⟩
    exact Nat.lt_of_le_of_lt (hperiods n hn).2 (by decide)

/-- **A sound source is read back from its text.** -/
theorem read?_text {s : Source} (h : s.IsSound) : read? s.text = some s :=
  read?_text_of_isNamed h.isNamed

/-- **The program's own names are fixed.** Whatever name is read as a source, the name that the program writes for
this source is read as the same one, and the program writes it for no other source that has a name. The numbers of
the source need not lie within the bounds of a rule. -/
theorem read?_canonical {text : String} {s : Source} (h : read? text = some s) :
    read? (Operand.source (α := Float) s).text = some s ∧
      ∀ text' s', read? text' = some s' →
        Operand.text (.source s') = Operand.text (.source s) → s' = s := by
  have hback : ∀ {text s}, read? text = some s → read? s.text = some s :=
    fun h => read?_text_of_isNamed (isNamed_of_read? h)
  refine ⟨hback h, fun text' s' h' hsame => ?_⟩
  have hone : some s' = some s := by
    rw [← hback h', ← hback h]
    exact congrArg read? hsame
  exact Option.some.inj hone

/-- A period and a multiplier that no rule may use, each the largest that can be read. -/
theorem read?_canonical_largest :
    let s : Source := .indicator (.bollinger 18446744073709551615 4294967295) .bandLower
    read? "bb-lower (18446744073709551615,1e9)" = some s ∧
      Operand.text (.source s) = "BB_LOWER(18446744073709551615,42949672.95)" ∧
      read? "BB_LOWER(18446744073709551615,42949672.95)" = some s ∧
      ∀ text' s', read? text' = some s' →
        Operand.text (.source s') = "BB_LOWER(18446744073709551615,42949672.95)" → s' = s := by
  intro s
  have hread : read? "bb-lower (18446744073709551615,1e9)" = some s := by decide +kernel
  have htext : Operand.text (.source s) = "BB_LOWER(18446744073709551615,42949672.95)" := by decide
  exact ⟨hread, htext, htext ▸ read?_canonical hread⟩

end Source

end Backtest
