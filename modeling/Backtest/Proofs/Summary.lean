import Backtest.Proofs.Spelling

/-!
# Rules are read back from their summary

The summary of a rule is a candidate in its own right. If the rule is sound, and there are prices for its
ticker, the candidate gives the very same rule (`Rule.ofCandidate_summary`). Each member of the summary has
a lemma that it is read as it was written; that a sound condition passes the checks is known from
`checkDomain_eq_ok_iff`, `checkSelf_eq_ok_iff` and `checkParameters_eq_ok_iff`.
-/

namespace Backtest

theorem Operator.read?_text (o : Operator) : Operator.read? o.text = some o := by
  cases o <;> rfl

namespace Candidate

/-! ## Conditions -/

/-- A condition is read if each of its members is read and all checks are passed. -/
theorem condition_eq_ok {members : Members} {s : Source} {o : Operator} {right : Operand Float}
    (hleft : left members = .ok s) (hoperator : operator members = .ok o) (hright : value members = .ok right)
    (hdomain : checkDomain s right = .ok ()) (hself : checkSelf s right = .ok ())
    (hparameters : checkParameters s = .ok ()) (hoperand : checkOperand right = .ok ()) :
    condition (.obj members) = .ok ⟨.source s, o, right⟩ := by
  simp only [condition, bind_eq_ok]
  exact ⟨s, hleft, o, hoperator, right, hright, (), hdomain, (), hself, (), hparameters, (), hoperand, rfl⟩

section Members

variable {s : Source} {o : Operator} {shown : Json}

theorem left_summary (h : s.IsSound) :
    left [("indicator", .str s.text), ("operator", .str o.text), ("value", shown)] = .ok s := by
  refine bind_eq_ok.mpr ⟨s.text, rfl, ?_⟩
  rw [Source.read?_text h]
  rfl

theorem operator_summary :
    operator [("indicator", .str s.text), ("operator", .str o.text), ("value", shown)] = .ok o := by
  refine bind_eq_ok.mpr ⟨o.text, rfl, ?_⟩
  rw [Operator.read?_text]
  rfl

/-- The name of a source is no number, so that it is read as a name. -/
theorem value_source {right : Source} (h : right.IsSound) :
    value [("indicator", .str s.text), ("operator", .str o.text), ("value", .str right.text)] =
      .ok (.source right) := by
  have hmember : present? [("indicator", .str s.text), ("operator", .str o.text), ("value", .str right.text)]
      "value" = some (.str right.text) := rfl
  simp only [value, hmember, constant?_eq_none right.isToken_text, Source.read?_text h]

theorem value_constant {v : Float} (h : v.isFinite = true) :
    value [("indicator", .str s.text), ("operator", .str o.text), ("value", .ofFloat v)] =
      .ok (.constant v) := by
  rw [Json.ofFloat, dif_pos h]
  rfl

end Members

theorem condition_summary {c : Condition Float} (h : c.IsSound) :
    condition (Rule.summaryOfCondition c) = .ok c := by
  have hparameters : ∀ {s : Source}, s.IsSound → checkParameters s = .ok () := fun hs =>
    (checkParameters_eq_ok_iff hs.isReadable).mpr hs
  cases h with
  | sources o sound rightSound differ =>
    exact condition_eq_ok (left_summary sound) operator_summary (value_source rightSound) rfl
      (checkSelf_eq_ok_iff.mpr differ) (hparameters sound) (hparameters rightSound)
  | constant o sound admitted =>
    have hdomain := (checkDomain_eq_ok_iff admitted.1).mpr admitted
    exact condition_eq_ok (left_summary sound) operator_summary (value_constant admitted.1) hdomain rfl
      (hparameters sound) rfl

/-- The conditions are read one after the other; the index counts for defects alone. -/
theorem conditionsFrom_summary {cs : List (Condition Float)} (h : ∀ c ∈ cs, c.IsSound) :
    ∀ index, conditionsFrom index (cs.map Rule.summaryOfCondition) = .ok cs := by
  induction cs with
  | nil => exact fun _ => rfl
  | cons c cs ih =>
    intro index
    have hrest := ih (fun d hd => h d (List.mem_cons_of_mem c hd)) (index + 1)
    simp only [List.map_cons, conditionsFrom, condition_summary (h c List.mem_cons_self), hrest]
    rfl

/-! ## The other members -/

theorem isPlain_of_isTickerChar {c : Char} (h : isTickerChar c = true) : IsPlain c := by
  simp only [isTickerChar, Bool.or_eq_true, decide_eq_true_eq] at h
  rcases h with ((((h | h) | rfl) | rfl) | rfl) | rfl
  · exact isPlain_of_isUpper h
  · exact isPlain_of_isDigit h
  all_goals decide

theorem isSymbolChar_of_isTickerChar {c : Char} (h : isTickerChar c = true) : isSymbolChar c = true := by
  simp only [isTickerChar, isSymbolChar, Char.isAlphanum, Char.isAlpha, Bool.or_eq_true] at h ⊢
  tauto

/-- A ticker is a symbol, as each of its characters is one byte. -/
theorem isSymbol_of_isTicker {t : String} (h : IsTicker t) : isSymbol t = true := by
  have hsize := utf8ByteSize_of_isPlain fun c hc => isPlain_of_isTickerChar (h.chars c hc)
  rw [String.ofList_toList, String.length_toList] at hsize
  rw [isSymbol, hsize, Bool.and_eq_true, List.all_eq_true]
  exact ⟨decide_eq_true h.short, fun c hc => isSymbolChar_of_isTickerChar (h.chars c hc)⟩

/-- A ticker as a rule has it: in capitals and without blanks around it. -/
def spelled (raw : String) : String := String.ofList (Text.upper (Text.trim raw.toList))

theorem spelled_eq_self {t : String} (h : IsTicker t) : spelled t = t := by
  have hplain : ∀ c ∈ t.toList, IsPlain c := fun c hc => isPlain_of_isTickerChar (h.chars c hc)
  rw [spelled, Text.trim_eq_self hplain, Text.upper_eq_self hplain, String.ofList_toList]

theorem ticker_eq {raw : String} {members : Members} (hmember : present? members "ticker" = some (.str raw)) :
    ticker members =
      if (spelled raw).isEmpty then .error .tickerEmpty
      else if isSymbol (spelled raw) then .ok (spelled raw)
      else .error (.tickerInvalid raw) := by
  rw [ticker, hmember]
  rfl

theorem ticker_of_spelled {raw : String} {members : Members} (h : IsTicker (spelled raw))
    (hmember : present? members "ticker" = some (.str raw)) : ticker members = .ok (spelled raw) := by
  have hempty : (spelled raw).isEmpty = false := by
    rw [Bool.eq_false_iff, ne_eq, String.isEmpty_iff]
    intro hnil
    have hlength := h.nonempty
    rw [hnil] at hlength
    exact absurd hlength (by decide)
  rw [ticker_eq hmember, hempty, isSymbol_of_isTicker h]
  rfl

theorem ticker_summary {r : Rule Float} {members : Members} (h : IsTicker r.ticker)
    (hmember : present? members "ticker" = some (.str r.ticker)) : ticker members = .ok r.ticker := by
  have hspelled := spelled_eq_self h
  rw [ticker_of_spelled (hspelled.symm ▸ h) hmember, hspelled]

end Candidate

/-- **A sound rule is read back from its summary.** -/
theorem Rule.ofCandidate_summary {resolves : String → Bool} {r : Rule Float} (h : r.IsSound)
    (hresolves : resolves r.ticker = true) : Rule.ofCandidate resolves r.summary = .ok r := by
  obtain ⟨ticker, direction, conditions, combination⟩ := r
  obtain ⟨c, cs, rfl⟩ := List.exists_cons_of_ne_nil h.nonempty
  simp only [Rule.summary, Rule.ofCandidate, bind_eq_ok]
  refine ⟨(), rfl, ticker, Candidate.ticker_summary h.ticker rfl, direction, ?_, c :: cs, ?_, combination,
    ?_, ?_⟩
  · cases direction <;> rfl
  · exact Candidate.conditionsFrom_summary h.conditions 0
  · cases combination <;> rfl
  · rw [if_pos hresolves]
    rfl

/-- A rule with an operand of every kind. -/
def Rule.sample : Rule Float where
  ticker := "BRK-B"
  direction := .short
  conditions := [
    ⟨.source (.indicator (.rsi 14) .value), .less, .constant 30⟩,
    ⟨.source (.indicator (.macd 5 35 5) .macdHistogram), .crossesAbove,
      .source (.indicator .defaultMacd .macdSignal)⟩,
    ⟨.source .price, .lessEqual, .source (.indicator (.bollinger 20 250) .bandLower)⟩]
  combination := .any

theorem Rule.ofCandidate_summary_sample :
    Rule.sample.IsSound ∧ decide (Rule.sample.ticker = "BRK-B") = true ∧
      Rule.ofCandidate (fun ticker => ticker = "BRK-B") Rule.sample.summary = .ok Rule.sample := by
  have hsound : Rule.sample.IsSound := by
    refine ⟨⟨by decide, by decide, List.all_eq_true.mp rfl⟩, by simp [Rule.sample], ?_⟩
    simp only [Rule.sample, List.mem_cons, List.not_mem_nil, or_false]
    rintro c (rfl | rfl | rfl)
    · exact .constant _ (by decide) ⟨by decide, by decide, by decide⟩
    · exact .sources _ (by decide) (by decide) (by decide)
    · exact .sources _ (by decide) (by decide) (by decide)
  exact ⟨hsound, by decide, Rule.ofCandidate_summary hsound (by decide)⟩

end Backtest
