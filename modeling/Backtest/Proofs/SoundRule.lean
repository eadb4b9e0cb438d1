import Backtest.Proofs.Characters
import Backtest.Proofs.Rounding
import Backtest.Rule.Candidate

/-!
# Sound rules

What the rest of the program may rely on in a rule that was read: `Rule.IsSound`. The ticker is a short
symbol in upper case, there is a condition, and in each condition (`Condition.IsSound`)

* the left side is a source, and so is the right one, or a constant that the left side can reach;
* an indicator is asked for a field that it has, its periods lie between 1 and 500, the fast period of a
  divergence is the shorter one, and the multiplier of bands is a positive number of 32 bits;
* the sides differ.

`Rule.ofCandidate_isSound`: whatever value is offered, a rule that is made of it is sound, and can be decided
after a thousand bars. The proof has one lemma for each step of the reading, saying what its success means, and
`Rule.ofCandidate_eq_ok_iff` puts the steps together.
-/

namespace Backtest

theorem bind_eq_ok {ε β γ : Type} {x : Except ε β} {f : β → Except ε γ} {c : γ} :
    x >>= f = .ok c ↔ ∃ b, x = .ok b ∧ f b = .ok c := by
  cases x <;> simp [bind, Except.bind]

theorem ite_error_eq_ok_iff {ε : Type} {p : Prop} [Decidable p] {e : ε} :
    (if p then Except.error e else .ok ()) = .ok () ↔ ¬ p := by
  by_cases h : p <;> simp [h]

/-! ## What a sound rule is -/

/-- A character of a ticker: `A` to `Z`, `0` to `9` or one of four signs. -/
def isTickerChar (c : Char) : Bool :=
  c.isUpper || c.isDigit || c = '.' || c = '^' || c = '=' || c = '-'

/-- One to fifteen characters of a ticker. -/
structure IsTicker (ticker : String) : Prop where
  nonempty : 1 ≤ ticker.length
  short : ticker.length ≤ 15
  chars : ∀ c ∈ ticker.toList, isTickerChar c = true

/-- A period that a rule may use. -/
def IsPeriod (n : Nat) : Prop := 1 ≤ n ∧ n ≤ 500

instance (n : Nat) : Decidable (IsPeriod n) := inferInstanceAs (Decidable (1 ≤ n ∧ n ≤ 500))

namespace Indicator

/-- Whether a reading of the indicator has a field. -/
def hasField : Indicator → Field → Bool
  | .sma _, .value | .ema _, .value | .rsi _, .value | .atr _, .value => true
  | .macd .., .macdLine | .macd .., .macdSignal | .macd .., .macdHistogram => true
  | .bollinger .., .bandUpper | .bollinger .., .bandMiddle | .bollinger .., .bandLower => true
  | _, _ => false

/-- Parameters within their bounds. -/
def HasSoundParameters : Indicator → Prop
  | .sma n | .ema n | .rsi n | .atr n => IsPeriod n
  | .macd fast slow signal => IsPeriod fast ∧ IsPeriod slow ∧ IsPeriod signal ∧ fast < slow
  | .bollinger n hundredths => IsPeriod n ∧ 1 ≤ hundredths ∧ hundredths < 2 ^ 32

instance : (i : Indicator) → Decidable i.HasSoundParameters
  | .sma n | .ema n | .rsi n | .atr n => inferInstanceAs (Decidable (IsPeriod n))
  | .macd fast slow signal =>
    inferInstanceAs (Decidable (IsPeriod fast ∧ IsPeriod slow ∧ IsPeriod signal ∧ fast < slow))
  | .bollinger n hundredths =>
    inferInstanceAs (Decidable (IsPeriod n ∧ 1 ≤ hundredths ∧ hundredths < 2 ^ 32))

end Indicator

namespace Source

/-- A source with a field and parameters that its indicator has. -/
def IsSound : Source → Prop
  | .price | .volume => True
  | .indicator i field => i.hasField field = true ∧ i.HasSoundParameters

instance : (s : Source) → Decidable s.IsSound
  | .price | .volume => inferInstanceAs (Decidable True)
  | .indicator i field => inferInstanceAs (Decidable (i.hasField field = true ∧ i.HasSoundParameters))

/-- A constant that the source can reach: the strength index lies between 0 and 100, and only a
divergence may be negative. -/
def Admits (s : Source) (v : Float) : Prop :=
  v.isFinite = true ∧
    match s with
    | .indicator (.rsi _) _ => 0 ≤ v ∧ v ≤ 100
    | .indicator (.macd ..) _ => True
    | _ => ¬ v < 0

end Source

/-- A source is compared with another source, or with a constant that it can reach. -/
inductive Condition.IsSound : Condition Float → Prop where
  | sources {left right : Source} (operator : Operator) (sound : left.IsSound)
    (rightSound : right.IsSound) (differ : right ≠ left) :
    IsSound ⟨.source left, operator, .source right⟩
  | constant {left : Source} {v : Float} (operator : Operator) (sound : left.IsSound)
    (admitted : left.Admits v) : IsSound ⟨.source left, operator, .constant v⟩

/-- A rule as the program runs it. -/
structure Rule.IsSound (r : Rule Float) : Prop where
  ticker : IsTicker r.ticker
  nonempty : r.conditions ≠ []
  conditions : ∀ c ∈ r.conditions, c.IsSound

/-! ## Reading a token -/

/-- What the name of a source promises: a field that the indicator has, and a multiplier of 32 bits. -/
def Source.IsReadable : Source → Prop
  | .price | .volume => True
  | .indicator i field => i.hasField field = true ∧
    ∀ n hundredths, i = .bollinger n hundredths → hundredths < 2 ^ 32

/-- Numbers as they are read from a name: periods of 64 bits, and a multiplier of 32 bits. -/
structure Indicator.HasWords (i : Indicator) : Prop where
  periods : ∀ n ∈ Candidate.periods i, n < 2 ^ 64
  multiplier : ∀ n hundredths, i = .bollinger n hundredths → hundredths < 2 ^ 32

/-- A source that a name can stand for, be its numbers within the bounds of a rule or not. -/
def Source.IsNamed : Source → Prop
  | .price | .volume => True
  | .indicator i field => i.hasField field = true ∧ i.HasWords

theorem Source.IsNamed.isReadable {s : Source} (h : s.IsNamed) : s.IsReadable := by
  cases s with
  | price => trivial
  | volume => trivial
  | indicator i field => exact ⟨h.1, h.2.multiplier⟩

theorem Text.natural?_lt {cs : List Char} {n : Nat} (h : natural? cs = some n) : n < 2 ^ 64 := by
  unfold natural? at h
  simp only at h
  split_ifs at h with hds hn
  rwa [← Option.some.inj h]

namespace Token

variable {parameters : List (List Char)}

theorem periods?_lt {ns : List Nat} (h : periods? parameters = some ns) : ∀ n ∈ ns, n < 2 ^ 64 := by
  induction parameters generalizing ns with
  | nil =>
    obtain rfl := Option.some.inj h
    exact List.forall_mem_nil _
  | cons p ps ih =>
    rw [periods?, List.mapM_cons] at h
    obtain ⟨n, hn, h⟩ := Option.bind_eq_some_iff.mp h
    obtain ⟨ms, hms, h⟩ := Option.bind_eq_some_iff.mp h
    obtain rfl := Option.some.inj h
    exact List.forall_mem_cons.mpr ⟨Text.natural?_lt hn, ih hms⟩

theorem periodOrDefault?_lt {n : Nat} (h : periodOrDefault? parameters = some n) : n < 2 ^ 64 := by
  obtain ⟨ns, hns, h⟩ := Option.bind_eq_some_iff.mp h
  split at h
  · rw [← Option.some.inj h]
    decide
  · rw [← Option.some.inj h]
    exact periods?_lt hns _ List.mem_cons_self
  · cases h

theorem singlePeriod?_lt {n : Nat} (h : singlePeriod? parameters = some n) : n < 2 ^ 64 := by
  obtain ⟨ns, hns, h⟩ := Option.bind_eq_some_iff.mp h
  split at h
  · rw [← Option.some.inj h]
    exact periods?_lt hns _ List.mem_cons_self
  · cases h

theorem hundredths?_lt {cs : List Char} {n : Nat} (h : hundredths? cs = some n) : n < 2 ^ 32 := by
  have hcap : ∀ m, min m 0xFFFFFFFF < 2 ^ 32 := fun m => Nat.lt_of_le_of_lt (Nat.min_le_right m _) (by decide)
  unfold hundredths? at h
  split at h
  · cases h
  · split_ifs at h
    split at h
    · rw [← Option.some.inj h]
      exact hcap _
    · rw [← Option.some.inj h]
      decide

theorem macd?_eq {i : Indicator} (h : macd? parameters = some i) :
    ∃ fast slow signal, i = .macd fast slow signal ∧ i.HasWords := by
  obtain ⟨ns, hns, h⟩ := Option.bind_eq_some_iff.mp h
  split at h
  · obtain rfl := Option.some.inj h
    exact ⟨_, _, _, rfl, ⟨by decide, nofun⟩⟩
  · obtain rfl := Option.some.inj h
    exact ⟨_, _, _, rfl, ⟨periods?_lt hns, nofun⟩⟩
  · cases h

theorem bollinger?_eq {i : Indicator} (h : bollinger? parameters = some i) :
    ∃ n hundredths, i = .bollinger n hundredths ∧ i.HasWords := by
  have hwords : ∀ {n hundredths : Nat}, n < 2 ^ 64 → hundredths < 2 ^ 32 →
      (Indicator.bollinger n hundredths).HasWords := by
    intro n hundredths hn hlt
    refine ⟨List.forall_mem_singleton.mpr hn, ?_⟩
    rintro _ _ ⟨⟩
    exact hlt
  unfold bollinger? at h
  split at h
  · obtain rfl := Option.some.inj h
    exact ⟨_, _, rfl, hwords (by decide) (by decide)⟩
  · obtain ⟨n, hn, h⟩ := Option.bind_eq_some_iff.mp h
    obtain rfl := Option.some.inj h
    exact ⟨_, _, rfl, hwords (Text.natural?_lt hn) (by decide)⟩
  · obtain ⟨hundredths, hm, h⟩ := Option.bind_eq_some_iff.mp h
    obtain ⟨n, hn, h⟩ := Option.bind_eq_some_iff.mp h
    obtain rfl := Option.some.inj h
    exact ⟨_, _, rfl, hwords (Text.natural?_lt hn) (hundredths?_lt hm)⟩
  · cases h

/-- Each name stands for a field of its indicator. -/
theorem indicator?_isNamed {name : String} {s : Source} (h : indicator? name parameters = some s) :
    s.IsNamed := by
  have hplain : ∀ {x : Option Nat} (f : Nat → Indicator), (∀ n, x = some n → n < 2 ^ 64) →
      (∀ n, n < 2 ^ 64 → (Source.indicator (f n) .value).IsNamed) →
      (x.map f).map (Source.indicator · .value) = some s → s.IsNamed := by
    intro x f hx hf hs
    rw [Option.map_map] at hs
    obtain ⟨n, hn, rfl⟩ := Option.map_eq_some_iff.mp hs
    exact hf n (hx n hn)
  have hmacd : ∀ {field}, (∀ fast slow signal, (Indicator.macd fast slow signal).hasField field = true) →
      (macd? parameters).map (Source.indicator · field) = some s → s.IsNamed := by
    intro field hfield hs
    obtain ⟨i, hi, rfl⟩ := Option.map_eq_some_iff.mp hs
    obtain ⟨fast, slow, signal, rfl, hwords⟩ := macd?_eq hi
    exact ⟨hfield _ _ _, hwords⟩
  have hband : ∀ {field}, (∀ n hundredths, (Indicator.bollinger n hundredths).hasField field = true) →
      (bollinger? parameters).map (Source.indicator · field) = some s → s.IsNamed := by
    intro field hfield hs
    obtain ⟨i, hi, rfl⟩ := Option.map_eq_some_iff.mp hs
    obtain ⟨n, hundredths, rfl, hwords⟩ := bollinger?_eq hi
    exact ⟨hfield _ _, hwords⟩
  have hsingle : ∀ {n : Nat}, n < 2 ^ 64 → ∀ m ∈ [n], m < 2 ^ 64 := fun hn => List.forall_mem_singleton.mpr hn
  unfold indicator? at h
  split at h
  · exact hplain .rsi (fun n => periodOrDefault?_lt) (fun n hn => ⟨rfl, ⟨hsingle hn, nofun⟩⟩) h
  · exact hplain .atr (fun n => periodOrDefault?_lt) (fun n hn => ⟨rfl, ⟨hsingle hn, nofun⟩⟩) h
  · exact hplain .sma (fun n => singlePeriod?_lt) (fun n hn => ⟨rfl, ⟨hsingle hn, nofun⟩⟩) h
  · exact hplain .sma (fun n => singlePeriod?_lt) (fun n hn => ⟨rfl, ⟨hsingle hn, nofun⟩⟩) h
  · exact hplain .ema (fun n => singlePeriod?_lt) (fun n hn => ⟨rfl, ⟨hsingle hn, nofun⟩⟩) h
  · exact hmacd (fun _ _ _ => rfl) h
  · exact hmacd (fun _ _ _ => rfl) h
  · exact hmacd (fun _ _ _ => rfl) h
  · exact hmacd (fun _ _ _ => rfl) h
  · exact hmacd (fun _ _ _ => rfl) h
  · exact hband (fun _ _ => rfl) h
  · exact hband (fun _ _ => rfl) h
  · exact hband (fun _ _ => rfl) h
  · exact hband (fun _ _ => rfl) h
  · exact hband (fun _ _ => rfl) h
  · cases h

end Token

theorem Source.isNamed_of_read? {text : String} {s : Source} (h : read? text = some s) : s.IsNamed := by
  unfold read? at h
  simp only at h
  split at h
  · rw [← Option.some.inj h]
    trivial
  · rw [← Option.some.inj h]
    trivial
  · rw [← Option.some.inj h]
    trivial
  · obtain ⟨⟨name, parameters⟩, -, hs⟩ := Option.bind_eq_some_iff.mp h
    exact Token.indicator?_isNamed hs

theorem Source.isReadable_of_read? {text : String} {s : Source} (h : read? text = some s) :
    s.IsReadable :=
  (isNamed_of_read? h).isReadable

theorem Source.IsSound.isReadable {s : Source} (h : s.IsSound) : s.IsReadable := by
  cases s with
  | price => trivial
  | volume => trivial
  | indicator i field =>
    refine ⟨h.1, ?_⟩
    rintro n hundredths rfl
    exact h.2.2.2

/-! ## Reading a ticker -/

/-- A character of a symbol that is no small letter is a character of a ticker. -/
theorem isTickerChar_of_isSymbolChar {c : Char} (h : Candidate.isSymbolChar c = true)
    (hupper : c.isLower = false) : isTickerChar c = true := by
  simp only [Candidate.isSymbolChar, Char.isAlphanum, Char.isAlpha, hupper, Bool.or_false] at h
  exact h

namespace Candidate

theorem ticker_isTicker {members : Members} {t : String} (h : ticker members = .ok t) : IsTicker t := by
  unfold ticker at h
  split at h
  · cases h
  · rename_i raw _
    generalize hcs : Text.trim raw.toList = cs at h
    simp only at h
    split_ifs at h with hempty hsymbol
    rw [← Except.ok.inj h]
    simp only [isSymbol, Bool.and_eq_true, decide_eq_true_eq, String.toList_ofList] at hsymbol
    refine ⟨?_, ?_, ?_⟩
    · rw [String.length_ofList]
      cases cs with
      | nil => exact absurd rfl hempty
      | cons c cs => exact Nat.succ_pos _
    · rw [String.length_ofList]
      exact (length_le_utf8ByteSize _).trans hsymbol.1
    · rw [String.toList_ofList]
      intro c hc
      obtain ⟨d, -, rfl⟩ := List.mem_map.mp hc
      exact isTickerChar_of_isSymbolChar (List.all_eq_true.mp hsymbol.2 _ hc)
        (Char.isLower_toUpper_eq_false d)
  · cases h

/-! ## Reading a condition -/

theorem isFinite_toFloat (n : Json.Number) : n.toFloat.isFinite = true := by
  cases n with
  | whole i =>
    rw [Json.Number.toFloat]
    split_ifs
    · rw [Decimal.isFinite_neg, Decimal.isFinite_toFloat]
    · exact Decimal.isFinite_toFloat _
  | real x finite => exact finite

/-- The right side of a condition is a finite constant or a source. -/
theorem value_spec {members : Members} {right : Operand Float} (h : value members = .ok right) :
    (∃ v, right = .constant v ∧ v.isFinite = true) ∨ ∃ s, right = .source s ∧ s.IsReadable := by
  unfold value at h
  split at h
  · cases h
  · rename_i n _
    exact .inl ⟨_, (Except.ok.inj h).symm, isFinite_toFloat n⟩
  · split at h
    · rename_i x hx
      refine .inl ⟨x, (Except.ok.inj h).symm, ?_⟩
      unfold constant? at hx
      split at hx
      · split_ifs at hx with hfinite
        rwa [← Option.some.inj hx]
      · cases hx
    · split at h
      · rename_i s hs
        exact .inr ⟨s, (Except.ok.inj h).symm, Source.isReadable_of_read? hs⟩
      · cases h
  · cases h

theorem left_isReadable {members : Members} {s : Source} (h : left members = .ok s) : s.IsReadable := by
  obtain ⟨raw, -, hraw⟩ := bind_eq_ok.mp h
  split at hraw
  · rename_i t ht
    rw [← Except.ok.inj hraw]
    exact Source.isReadable_of_read? ht
  · cases hraw

/-! ## The checks of a condition -/

theorem checkDomain_eq_ok_iff {left : Source} {v : Float} (hfinite : v.isFinite = true) :
    checkDomain left (.constant v) = .ok () ↔ left.Admits v := by
  have hzero : number 0 = 0 := rfl
  have hhundred : number 100 = 100 := rfl
  rcases left with _ | _ | ⟨_ | _ | _ | _ | _ | _, field⟩
  all_goals simp only [checkDomain, Source.indicator?, hzero, hhundred, Source.Admits, hfinite, true_and]
  · exact ite_error_eq_ok_iff
  · exact ite_error_eq_ok_iff
  · exact ite_error_eq_ok_iff
  · exact ite_error_eq_ok_iff
  · constructor
    · intro h
      split_ifs at h with hout hneg
      simpa using hout
    · rintro ⟨hlow, hhigh⟩
      rw [decide_eq_true hlow, decide_eq_true hhigh]
      exact if_neg (Decimal.not_lt_of_le hlow)
  · exact ite_error_eq_ok_iff
  · exact ite_error_eq_ok_iff

theorem checkSelf_eq_ok_iff {left right : Source} :
    checkSelf left (.source right) = .ok () ↔ right ≠ left := by
  constructor
  · rintro h rfl
    rw [checkSelf, if_pos rfl] at h
    cases h
  · exact fun h => if_neg h.symm

theorem find?_periods_eq_none_iff {i : Indicator} :
    (periods i).find? (fun p => p = 0 || maxPeriod < p) = none ↔ ∀ p ∈ periods i, IsPeriod p := by
  rw [List.find?_eq_none]
  refine forall₂_congr fun p _ => ?_
  rw [Bool.or_eq_true, decide_eq_true_iff, decide_eq_true_iff, maxPeriod, IsPeriod]
  omega

/-- The periods, and what else the parameters of an indicator must be. -/
theorem hasSoundParameters_iff {i : Indicator} : i.HasSoundParameters ↔
    (∀ p ∈ periods i, IsPeriod p) ∧ (∀ fast slow signal, i = .macd fast slow signal → fast < slow) ∧
      ∀ n hundredths, i = .bollinger n hundredths → 1 ≤ hundredths ∧ hundredths < 2 ^ 32 := by
  cases i <;> simp [Indicator.HasSoundParameters, periods, and_assoc]

theorem checkParameters_eq_ok_iff {s : Source} (hread : s.IsReadable) :
    checkParameters s = .ok () ↔ s.IsSound := by
  cases s with
  | price => exact iff_of_true rfl trivial
  | volume => exact iff_of_true rfl trivial
  | indicator i field =>
    obtain ⟨hfield, hsmall⟩ := hread
    rw [Source.IsSound, and_iff_right hfield, hasSoundParameters_iff, ← find?_periods_eq_none_iff]
    simp only [checkParameters, Source.indicator?]
    cases hbad : (periods i).find? (fun p => p = 0 || maxPeriod < p) with
    | some bad => exact iff_of_false nofun fun h => nomatch h.1
    | none =>
      rw [and_iff_right rfl]
      cases i with
      | macd fast slow signal =>
        refine ite_error_eq_ok_iff.trans ⟨fun h => ⟨?_, nofun⟩, fun h => Nat.not_le_of_lt (h.1 _ _ _ rfl)⟩
        rintro _ _ _ ⟨⟩
        exact Nat.lt_of_not_le h
      | bollinger n hundredths =>
        refine ite_error_eq_ok_iff.trans ⟨fun h => ⟨nofun, ?_⟩, fun h => Nat.ne_of_gt (h.2 _ _ rfl).1⟩
        rintro _ _ ⟨⟩
        exact ⟨Nat.pos_of_ne_zero h, hsmall n hundredths rfl⟩
      | _ => exact iff_of_true rfl ⟨nofun, nofun⟩

/-! ## The conditions -/

theorem condition_isSound {item : Json} {c : Condition Float} (h : condition item = .ok c) : c.IsSound := by
  unfold condition at h
  split at h
  · rename_i members
    obtain ⟨left, hleft, h⟩ := bind_eq_ok.mp h
    obtain ⟨operator, -, h⟩ := bind_eq_ok.mp h
    obtain ⟨right, hright, h⟩ := bind_eq_ok.mp h
    obtain ⟨⟨⟩, hdomain, h⟩ := bind_eq_ok.mp h
    obtain ⟨⟨⟩, hself, h⟩ := bind_eq_ok.mp h
    obtain ⟨⟨⟩, hparameters, h⟩ := bind_eq_ok.mp h
    obtain ⟨⟨⟩, hoperand, h⟩ := bind_eq_ok.mp h
    rw [← Except.ok.inj h]
    have hsound := (checkParameters_eq_ok_iff (left_isReadable hleft)).mp hparameters
    rcases value_spec hright with ⟨v, rfl, hfinite⟩ | ⟨s, rfl, hread⟩
    · exact .constant operator hsound ((checkDomain_eq_ok_iff hfinite).mp hdomain)
    · have hsound' := (checkParameters_eq_ok_iff hread).mp hoperand
      exact .sources operator hsound hsound' (checkSelf_eq_ok_iff.mp hself)
  · cases h

/-- Each item of the list gives one condition. -/
theorem conditionsFrom_isSound {items : List Json} :
    ∀ {index : Nat} {cs : List (Condition Float)}, conditionsFrom index items = .ok cs →
      cs.length = items.length ∧ ∀ c ∈ cs, c.IsSound := by
  induction items with
  | nil =>
    intro index cs h
    rw [← Except.ok.inj h]
    exact ⟨rfl, by simp⟩
  | cons item rest ih =>
    intro index cs h
    rw [conditionsFrom] at h
    split at h
    · cases h
    · rename_i c hc
      obtain ⟨tail, htail, h⟩ := bind_eq_ok.mp h
      obtain ⟨hlength, hsound⟩ := ih htail
      rw [← Except.ok.inj h]
      refine ⟨by rw [List.length_cons, List.length_cons, hlength], ?_⟩
      intro d hd
      rcases List.mem_cons.mp hd with rfl | hd
      · exact condition_isSound hc
      · exact hsound d hd

theorem find?_of_present? {members : Members} {name : String} {v : Json}
    (h : present? members name = some v) : Json.find? members name = some v := by
  unfold present? at h
  split at h
  · cases h
  · exact h

theorem conditions_isSound {members : Members} {cs : List (Condition Float)}
    (h : conditions members = .ok cs) :
    cs ≠ [] ∧ (∀ c ∈ cs, c.IsSound) ∧
      ∃ items, Json.find? members "conditions" = some (.arr items) ∧ cs.length = items.length := by
  unfold conditions at h
  split at h
  · cases h
  · cases h
  · rename_i items hne hpresent
    obtain ⟨hlength, hsound⟩ := conditionsFrom_isSound h
    refine ⟨?_, hsound, items, find?_of_present? hpresent, hlength⟩
    rintro rfl
    exact hne (List.eq_nil_of_length_eq_zero hlength.symm)
  · cases h

end Candidate

/-! ## The bars that a sound rule needs -/

theorem Source.IsSound.lookback_le {s : Source} (h : s.IsSound) : s.lookback ≤ 998 := by
  rcases s with _ | _ | ⟨i, field⟩
  · exact Nat.zero_le _
  · exact Nat.zero_le _
  · obtain ⟨-, hparameters⟩ := h
    show i.lookback ≤ 998
    cases i <;> simp only [Indicator.HasSoundParameters, IsPeriod, Indicator.lookback] at * <;> omega

theorem Condition.IsSound.requiredBars_le {c : Condition Float} (h : c.IsSound) :
    c.requiredBars ≤ 1000 := by
  have hcrossing : ∀ o : Operator, (if o.isCrossing = true then 1 else 0) ≤ 1 := by
    intro o
    split_ifs <;> omega
  cases h with
  | @sources left right operator hleft hright _ =>
    have hl : (Operand.source (α := Float) left).lookback ≤ 998 := hleft.lookback_le
    have hr : (Operand.source (α := Float) right).lookback ≤ 998 := hright.lookback_le
    have := hcrossing operator
    simp only [requiredBars, lookback]
    omega
  | @constant left v operator hleft _ =>
    have hl : (Operand.source (α := Float) left).lookback ≤ 998 := hleft.lookback_le
    have hr : (Operand.constant v).lookback = 0 := rfl
    have := hcrossing operator
    simp only [requiredBars, lookback]
    omega

/-- A fold that keeps its value or takes the element ends with an element, if it begins with none. -/
theorem foldl_choice {β : Type} {step : Option β → β → Option β}
    (hstep : ∀ best x, step best x = best ∨ step best x = some x) (xs : List β) :
    ∀ best, xs.foldl step best = best ∨ ∃ x ∈ xs, xs.foldl step best = some x := by
  induction xs with
  | nil => exact fun best => .inl rfl
  | cons x xs ih =>
    intro best
    rw [List.foldl_cons]
    rcases ih (step best x) with hkept | ⟨y, hy, heq⟩
    · rw [hkept]
      rcases hstep best x with hbest | hx
      · exact .inl hbest
      · exact .inr ⟨x, List.mem_cons_self, hx⟩
    · exact .inr ⟨y, List.mem_cons_of_mem x hy, heq⟩

theorem Rule.limitingCondition?_mem {α : Type} {r : Rule α} {c : Condition α}
    (h : r.limitingCondition? = some c) : c ∈ r.conditions := by
  have hchoice : r.limitingCondition? = none ∨ ∃ d ∈ r.conditions, r.limitingCondition? = some d := by
    apply foldl_choice
    intro best d
    cases best with
    | none => exact .inr rfl
    | some b =>
      simp only
      split_ifs
      · exact .inl rfl
      · exact .inr rfl
  rcases hchoice with hnone | ⟨d, hd, heq⟩
  · rw [hnone] at h
    cases h
  · rw [heq, Option.some.injEq] at h
    rwa [← h]

theorem Rule.IsSound.requiredBars_le {r : Rule Float} (h : r.IsSound) : r.requiredBars ≤ 1000 := by
  rw [Rule.requiredBars]
  split
  · rename_i c hc
    exact (h.conditions c (limitingCondition?_mem hc)).requiredBars_le
  · decide

/-- A rule is made of an object whose parts are all read, if there are prices for its ticker. -/
theorem Rule.ofCandidate_eq_ok_iff {resolves : String → Bool} {candidate : Json} {r : Rule Float} :
    Rule.ofCandidate resolves candidate = .ok r ↔ ∃ members, candidate = .obj members ∧
      Candidate.checkReport members = .ok () ∧ Candidate.ticker members = .ok r.ticker ∧
      Candidate.direction members = .ok r.direction ∧ Candidate.conditions members = .ok r.conditions ∧
      Candidate.combination members = .ok r.combination ∧ resolves r.ticker = true := by
  constructor
  · intro h
    unfold Rule.ofCandidate at h
    split at h
    · rename_i members
      obtain ⟨⟨⟩, hreport, h⟩ := bind_eq_ok.mp h
      obtain ⟨ticker, hticker, h⟩ := bind_eq_ok.mp h
      obtain ⟨direction, hdirection, h⟩ := bind_eq_ok.mp h
      obtain ⟨conditions, hconditions, h⟩ := bind_eq_ok.mp h
      obtain ⟨combination, hcombination, h⟩ := bind_eq_ok.mp h
      split_ifs at h with hresolves
      obtain rfl := Except.ok.inj h
      exact ⟨members, rfl, hreport, hticker, hdirection, hconditions, hcombination, hresolves⟩
    · cases h
  · rintro ⟨members, rfl, hreport, hticker, hdirection, hconditions, hcombination, hresolves⟩
    simp only [Rule.ofCandidate, bind_eq_ok]
    refine ⟨(), hreport, _, hticker, _, hdirection, _, hconditions, _, hcombination, ?_⟩
    rw [if_pos hresolves]
    rfl

theorem Rule.isSound_of_ofCandidate {resolves : String → Bool} {candidate : Json} {r : Rule Float}
    (h : Rule.ofCandidate resolves candidate = .ok r) : r.IsSound := by
  obtain ⟨members, rfl, -, hticker, -, hconditions, -⟩ := Rule.ofCandidate_eq_ok_iff.mp h
  obtain ⟨hne, hsound, -⟩ := Candidate.conditions_isSound hconditions
  exact ⟨Candidate.ticker_isTicker hticker, hne, hsound⟩

/-- **Whatever is offered, a rule that is made of it is sound.** -/
theorem Rule.ofCandidate_isSound {resolves : String → Bool} {candidate : Json} {r : Rule Float}
    (h : Rule.ofCandidate resolves candidate = .ok r) :
    r.IsSound ∧ resolves r.ticker = true ∧
      (∃ items, candidate.get? "conditions" = some (.arr items) ∧
        r.conditions.length = items.length) ∧
      r.requiredBars ≤ 1000 := by
  have hsound := Rule.isSound_of_ofCandidate h
  obtain ⟨members, rfl, -, -, -, hconditions, -, hresolves⟩ := Rule.ofCandidate_eq_ok_iff.mp h
  obtain ⟨-, -, hitems⟩ := Candidate.conditions_isSound hconditions
  exact ⟨hsound, hresolves, hitems, hsound.requiredBars_le⟩

/-- A candidate in which names are spelled in several ways. -/
def Candidate.sample : Json :=
  .obj [("ticker", .str " spy "), ("action", .arr [.str "buy", .str "LONG"]),
    ("conditions", .arr [
      .obj [("indicator", .str "rsi 14"), ("operator", .str "<"), ("value", .str "+30")],
      .obj [("indicator", .str "sma(50)"), ("operator", .str "cross above"), ("value", .str "SMA-200")],
      .obj [("indicator", .str "Price"), ("operator", .str ">="), ("value", .str "bb_lower(20,2.5)")],
      .obj [("indicator", .str "macd"), ("operator", .str "<="), ("value", .num (.whole (-1)))]])]

theorem Rule.ofCandidate_isSound_sample :
    ∃ r, Rule.ofCandidate (fun ticker => ticker = "SPY") Candidate.sample = .ok r ∧
      r.IsSound ∧ decide (r.ticker = "SPY") = true ∧
      (∃ items, Candidate.sample.get? "conditions" = some (.arr items) ∧
        r.conditions.length = items.length) ∧
      r.requiredBars ≤ 1000 := by
  obtain ⟨r, hr⟩ : ∃ r, Rule.ofCandidate (fun ticker => ticker = "SPY") Candidate.sample = .ok r :=
    ⟨_, rfl⟩
  exact ⟨r, hr, Rule.ofCandidate_isSound hr⟩

end Backtest
