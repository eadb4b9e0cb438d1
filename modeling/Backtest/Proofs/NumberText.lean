import Backtest.Decimal.Format
import Backtest.Proofs.Numerals
import Backtest.Proofs.ShortestDigits

/-!
# Numbers in JSON are exact

A `Numeral` is the text of a number in parts: a sign, digits, places behind a point, and an exponent. It spells a
decimal, which is read as the double next to it (`Numeral.readFloat_text`).

JSON writes the fewest digits of a double, with the point in its place or with an exponent; both forms spell the same
decimal (`exists_numeral_positional`, `exists_numeral_scientific`). As this decimal lies in the interval of the
double, the text is read back as the double that was written: `exists_numeral_write`.
-/

namespace Backtest.Decimal

open Text

/-! ## Digits -/

theorem natOfDigits_replicate_zero (n : Nat) : natOfDigits (List.replicate n '0') = 0 := by
  induction n with
  | zero => rfl
  | succ n ih =>
    rw [List.replicate_succ', natOfDigits_append, ih]
    rfl

/-- Only the digits of zero begin with a zero. -/
theorem eq_zero_of_head?_toDigits {n : Nat} (h : (Nat.toDigits 10 n).head? = some '0') : n = 0 := by
  induction n using Nat.strong_induction_on with
  | _ n ih =>
    rcases Nat.lt_or_ge n 10 with hn | hn
    · rw [Nat.toDigits_of_lt_base hn] at h
      interval_cases n <;> first | rfl | exact absurd h (by decide)
    · rw [Nat.toDigits_of_base_le (by decide) hn,
        List.head?_append_of_ne_nil _ Nat.toDigits_ne_nil] at h
      have hzero := ih (n / 10) (Nat.div_lt_self (by omega) (by decide)) h
      omega

/-! ## Numerals -/

/-- The parts of the text of a number: a sign, digits, places behind a point, and an exponent with its sign. -/
structure Numeral where
  negative : Bool
  whole : List Char
  places : List Char
  exponent : Option (Bool × List Char)

namespace Numeral

/-- The text of an exponent. -/
def exponentText : Option (Bool × List Char) → List Char
  | none => []
  | some (negative, ds) => 'e' :: (if negative then '-' else '+') :: ds

/-- The text behind the sign. A point stands only in front of places. -/
def body (n : Numeral) : List Char :=
  n.whole ++ (if n.places.isEmpty then [] else '.' :: n.places) ++ exponentText n.exponent

def text (n : Numeral) : List Char := if n.negative then '-' :: n.body else n.body

/-- Digits stand where digits belong, at least one in the whole part and in an exponent, and no zero stands in front
of other digits. -/
structure IsWellFormed (n : Numeral) : Prop where
  digits : ∀ c ∈ n.whole ++ n.places, c.isDigit = true
  whole : n.whole ≠ []
  leading : n.whole.head? = some '0' → n.whole = ['0']
  exponent : ∀ e ∈ n.exponent, e.2 ≠ [] ∧ ∀ c ∈ e.2, c.isDigit = true

/-- The value of an exponent. -/
def exponentValue : Option (Bool × List Char) → Int
  | none => 0
  | some (negative, ds) => if negative then -(natOfDigits ds : Int) else natOfDigits ds

/-- All digits as a whole number. -/
def digits (n : Numeral) : Nat := natOfDigits (n.whole ++ n.places)

/-- The power of ten of the last digit. -/
def power (n : Numeral) : Int := exponentValue n.exponent - n.places.length

variable {n : Numeral}

theorem exponent?_exponentText (h : ∀ e ∈ n.exponent, e.2 ≠ [] ∧ ∀ c ∈ e.2, c.isDigit = true) :
    exponent? (exponentText n.exponent) = some (exponentValue n.exponent) := by
  cases he : n.exponent with
  | none => rfl
  | some e =>
    obtain ⟨negative, ds⟩ := e
    obtain ⟨hne, hds⟩ := h _ (by rw [he]; rfl)
    have hall : ds.all Char.isDigit = true := List.all_eq_true.mpr hds
    cases negative <;>
      simp [exponentText, exponent?, takeSign, exponentValue, List.isEmpty_eq_false_iff.mpr hne, hall]

/-- What ends a number does not go on with a digit. -/
theorem not_isDigit_exponentText {c : Char} (hc : c ∈ (exponentText n.exponent).head?) : c.isDigit = false := by
  cases he : n.exponent with
  | none =>
    rw [he] at hc
    cases hc
  | some e =>
    rw [he] at hc
    obtain rfl : 'e' = c := Option.some.inj hc
    rfl

/-- Digits up to what is no digit. -/
theorem takeWhile_digits {ds rest : List Char} (hds : ∀ c ∈ ds, c.isDigit = true)
    (hrest : ∀ c ∈ rest.head?, c.isDigit = false) :
    (ds ++ rest).takeWhile Char.isDigit = ds ∧ (ds ++ rest).dropWhile Char.isDigit = rest := by
  rw [List.takeWhile_append_of_pos hds, List.dropWhile_append_of_pos hds]
  cases rest with
  | nil => simp
  | cons c rest => simp [hrest c rfl]

theorem numeral?_body (h : n.IsWellFormed) : numeral? n.body = some (n.digits, n.power) := by
  have hwhole : ∀ c ∈ n.whole, c.isDigit = true := fun c hc => h.digits c (List.mem_append_left _ hc)
  have hplaces : ∀ c ∈ n.places, c.isDigit = true := fun c hc => h.digits c (List.mem_append_right _ hc)
  have hexponent := exponent?_exponentText h.exponent
  have hend : ∀ c ∈ (exponentText n.exponent).head?, c.isDigit = false := fun c => not_isDigit_exponentText
  rw [body, numeral?, List.append_assoc]
  have hne : n.whole.isEmpty = false := List.isEmpty_eq_false_iff.mpr h.whole
  by_cases hnone : n.places = []
  · obtain ⟨htake, hdrop⟩ := takeWhile_digits hwhole hend
    rw [hnone, List.isEmpty_nil, if_pos rfl, List.nil_append]
    simp only [htake, hdrop, hne, Bool.false_and, Bool.false_eq_true, if_false, digits, power, hnone]
    cases he : n.exponent with
    | none => rfl
    | some e =>
      rw [he] at hexponent
      exact congrArg (Option.map _) hexponent
  · have hpoint : ∀ c ∈ ('.' :: (n.places ++ exponentText n.exponent)).head?, c.isDigit = false := by
      rintro c ⟨⟩
      rfl
    obtain ⟨htake, hdrop⟩ := takeWhile_digits hwhole hpoint
    obtain ⟨htake', hdrop'⟩ := takeWhile_digits hplaces hend
    rw [List.isEmpty_eq_false_iff.mpr hnone, if_neg Bool.false_ne_true, List.cons_append]
    simp only [htake, hdrop, htake', hdrop', hne, Bool.false_and, Bool.false_eq_true, if_false, hexponent,
      Option.map_some, digits, power]

/-- A text is read as the double next to what it spells. -/
theorem readFloat_text (h : n.IsWellFormed) : readFloat n.text = .ok (ofDecimal n.negative n.digits n.power) := by
  have hnumeral := numeral?_body h
  obtain ⟨d, rest, hbody, hd⟩ : ∃ d rest, n.body = d :: rest ∧ d.isDigit = true := by
    obtain ⟨d, ds, hds⟩ := List.exists_cons_of_ne_nil h.whole
    refine ⟨d, ds ++ (if n.places.isEmpty then [] else '.' :: n.places) ++ exponentText n.exponent, ?_, ?_⟩
    · rw [body, hds]
      rfl
    · exact h.digits d (List.mem_append_left _ (by rw [hds]; exact List.mem_cons_self))
  rw [text]
  rw [hbody] at hnumeral ⊢
  cases n.negative with
  | true => exact readFloat_minus hd hnumeral
  | false => exact readFloat_of_digit hd hnumeral

/-- The magnitude that a text spells. -/
def magnitude (n : Numeral) : ℚ := n.digits * 10 ^ n.power

end Numeral

/-! ## The forms of JSON -/

variable {ds : List Char}

theorem ten_zpow_toNat {e : Int} (he : 0 ≤ e) : (10 : ℚ) ^ e.toNat = 10 ^ e := by
  rw [← zpow_natCast, Int.toNat_of_nonneg he]

theorem isDigit_replicate (k : ℕ) : ∀ c ∈ List.replicate k '0', c.isDigit = true := by
  intro c hc
  rw [List.eq_of_mem_replicate hc]
  rfl

section

variable (negative : Bool) (hds : ∀ c ∈ ds, c.isDigit = true) (hne : ds ≠ []) {e : Int}

include hds hne

/-- The point behind the digits, and zeros in front of it. -/
theorem exists_numeral_behind (hzero : ds.head? = some '0' → ds = ['0'] ∧ e = 0) (he : 0 ≤ e) :
    ∃ n : Numeral, n.negative = negative ∧ n.body = positionalText true ds e ∧ n.IsWellFormed ∧ n.places ≠ [] ∧
      n.magnitude = natOfDigits ds * 10 ^ e := by
  rw [positionalText, if_pos he, if_pos rfl]
  refine ⟨⟨negative, ds ++ List.replicate e.toNat '0', ['0'], none⟩, rfl, ?_, ⟨?_, ?_, ?_, nofun⟩, by simp, ?_⟩
  · simp [Numeral.body, Numeral.exponentText]
  · intro c hc
    simp only [List.mem_append, List.mem_singleton] at hc
    rcases hc with (hc | hc) | rfl
    · exact hds c hc
    · exact isDigit_replicate _ c hc
    · rfl
  · simp [hne]
  · intro hhead
    rw [List.head?_append_of_ne_nil _ hne] at hhead
    obtain ⟨rfl, rfl⟩ := hzero hhead
    rfl
  · have hlast : natOfDigits ['0'] = 0 := rfl
    rw [Numeral.magnitude, Numeral.digits, Numeral.power]
    simp only [natOfDigits_append, natOfDigits_replicate_zero, hlast, List.length_replicate, List.length_singleton,
      Numeral.exponentValue]
    push_cast
    rw [ten_zpow_toNat he]
    norm_num
    ring

/-- The point between the digits. -/
theorem exists_numeral_between (hzero : ds.head? = some '0' → ds = ['0'] ∧ e = 0) (he : ¬ 0 ≤ e)
    (hplaces : (-e).toNat < ds.length) :
    ∃ n : Numeral, n.negative = negative ∧ n.body = positionalText true ds e ∧ n.IsWellFormed ∧ n.places ≠ [] ∧
      n.magnitude = natOfDigits ds * 10 ^ e := by
  obtain ⟨k, hk⟩ : ∃ k, k + (-e).toNat = ds.length := ⟨ds.length - (-e).toNat, by omega⟩
  simp only [positionalText, if_neg he, if_pos hplaces, show ds.length - (-e).toNat = k by omega]
  have hdrop : (ds.drop k).length = (-e).toNat := by
    rw [List.length_drop]
    omega
  have hdrop' : ds.drop k ≠ [] := by
    rw [← List.length_pos_iff, hdrop]
    omega
  have htake : (ds.take k).head? = ds.head? := by
    rw [List.head?_take, if_neg (by omega)]
  refine ⟨⟨negative, ds.take k, ds.drop k, none⟩, rfl, ?_, ⟨?_, ?_, ?_, nofun⟩, hdrop', ?_⟩
  · simp [Numeral.body, Numeral.exponentText, List.isEmpty_eq_false_iff.mpr hdrop']
  · rw [List.take_append_drop]
    exact hds
  · rw [ne_eq, ← List.head?_eq_none_iff, htake, List.head?_eq_none_iff]
    exact hne
  · intro hhead
    rw [htake] at hhead
    exact absurd (hzero hhead).2 (by omega)
  · rw [Numeral.magnitude, Numeral.digits, Numeral.power]
    simp only [List.take_append_drop, hdrop, Numeral.exponentValue]
    congr 2
    omega

/-- The point in front of the digits, and zeros behind it. -/
theorem exists_numeral_inFront (he : ¬ 0 ≤ e) (hplaces : ¬ (-e).toNat < ds.length) :
    ∃ n : Numeral, n.negative = negative ∧ n.body = positionalText true ds e ∧ n.IsWellFormed ∧ n.places ≠ [] ∧
      n.magnitude = natOfDigits ds * 10 ^ e := by
  simp only [positionalText, if_neg he, if_neg hplaces]
  refine ⟨⟨negative, ['0'], List.replicate ((-e).toNat - ds.length) '0' ++ ds, none⟩, rfl, ?_,
    ⟨?_, by simp, fun _ => rfl, nofun⟩, by simp [hne], ?_⟩
  · simp [Numeral.body, Numeral.exponentText, hne]
  · intro c hc
    simp only [List.mem_append, List.mem_singleton] at hc
    rcases hc with rfl | hc | hc
    · rfl
    · exact isDigit_replicate _ c hc
    · exact hds c hc
  · have hfirst : natOfDigits ['0'] = 0 := rfl
    rw [Numeral.magnitude, Numeral.digits, Numeral.power]
    simp only [natOfDigits_append, natOfDigits_replicate_zero, hfirst, List.length_append, List.length_replicate,
      Numeral.exponentValue, mul_zero, zero_add]
    congr 2
    omega

/-- Digits with a point in their place spell the same number. -/
theorem exists_numeral_positional (hzero : ds.head? = some '0' → ds = ['0'] ∧ e = 0) :
    ∃ n : Numeral, n.negative = negative ∧ n.body = positionalText true ds e ∧ n.IsWellFormed ∧ n.places ≠ [] ∧
      n.magnitude = natOfDigits ds * 10 ^ e := by
  by_cases he : 0 ≤ e
  · exact exists_numeral_behind negative hds hne hzero he
  · by_cases hplaces : (-e).toNat < ds.length
    · exact exists_numeral_between negative hds hne hzero he hplaces
    · exact exists_numeral_inFront negative hds hne he hplaces

end

/-- A digit, a point, the other digits and an exponent spell the same number. -/
theorem exists_numeral_scientific (negative : Bool) (hds : ∀ c ∈ ds, c.isDigit = true) (hne : ds ≠ [])
    (leading : Int) :
    ∃ n : Numeral, n.negative = negative ∧ n.body = scientificText ds leading ∧ n.IsWellFormed ∧
      n.exponent ≠ none ∧ n.magnitude = natOfDigits ds * 10 ^ (leading - (ds.length - 1)) := by
  obtain ⟨d, rest, rfl⟩ := List.exists_cons_of_ne_nil hne
  refine ⟨⟨negative, [d], rest, some (decide (leading < 0), Nat.toDigits 10 leading.natAbs)⟩, rfl, ?_,
    ⟨?_, by simp, ?_, ?_⟩, by simp, ?_⟩
  · rw [scientificText, Numeral.body]
    cases rest with
    | nil => simp [Numeral.exponentText]
    | cons c rest => simp [Numeral.exponentText]
  · simpa using hds
  · rintro ⟨⟩
    rfl
  · rintro ⟨s, es⟩ ⟨⟩
    exact ⟨Nat.toDigits_ne_nil, fun c hc => isDigit_toDigits hc⟩
  · have hvalue : Numeral.exponentValue (some (decide (leading < 0), Nat.toDigits 10 leading.natAbs)) = leading := by
      rw [Numeral.exponentValue, natOfDigits_toDigits]
      split_ifs with hlt <;> simp at hlt <;> omega
    rw [Numeral.magnitude, Numeral.digits, Numeral.power]
    simp only [hvalue, List.singleton_append, List.length_cons]
    congr 2
    push_cast
    ring

/-- Digits are written in one of the two forms. -/
theorem exists_numeral_digits (negative byPosition : Bool) {s : Digits} (hs : s.digits = 0 → s.exponent = 0) :
    ∃ n : Numeral, n.negative = negative ∧
      n.body = (if byPosition then positionalText true (Nat.toDigits 10 s.digits) s.exponent
        else scientificText (Nat.toDigits 10 s.digits)
          (s.exponent + ((Nat.toDigits 10 s.digits).length : Int) - 1)) ∧
      n.IsWellFormed ∧ (n.places ≠ [] ∨ n.exponent ≠ none) ∧ n.magnitude = s.digits * 10 ^ s.exponent := by
  have hne : Nat.toDigits 10 s.digits ≠ [] := Nat.toDigits_ne_nil
  have hds : ∀ c ∈ Nat.toDigits 10 s.digits, c.isDigit = true := fun c hc => isDigit_toDigits hc
  have hvalue := natOfDigits_toDigits s.digits
  cases byPosition with
  | true =>
    have hzero : (Nat.toDigits 10 s.digits).head? = some '0' → Nat.toDigits 10 s.digits = ['0'] ∧ s.exponent = 0 := by
      intro hhead
      have hdigits := eq_zero_of_head?_toDigits hhead
      exact ⟨by rw [hdigits]; rfl, hs hdigits⟩
    obtain ⟨n, hn, hbody, hwell, hplaces, hmagnitude⟩ := exists_numeral_positional negative hds hne hzero
    rw [hvalue] at hmagnitude
    exact ⟨n, hn, hbody, hwell, .inl hplaces, hmagnitude⟩
  | false =>
    obtain ⟨n, hn, hbody, hwell, hexponent, hmagnitude⟩ := exists_numeral_scientific negative hds hne
      (s.exponent + ((Nat.toDigits 10 s.digits).length : Int) - 1)
    rw [hvalue, show s.exponent + ((Nat.toDigits 10 s.digits).length : Int) - 1 -
      ((Nat.toDigits 10 s.digits).length - 1) = s.exponent by ring] at hmagnitude
    exact ⟨n, hn, hbody, hwell, .inr hexponent, hmagnitude⟩

/-- A finite value is written as a text that spells its fewest digits. -/
theorem exists_numeral_writeFinite {v : Binary}
    (hv : v.mantissa ≠ 0 → 0 < (shortest .even v.mantissa v.exponent).digits) :
    ∃ n : Numeral, n.text = (NumberFormat.json.writeFinite v).toList ∧ n.IsWellFormed ∧
      (n.places ≠ [] ∨ n.exponent ≠ none) ∧ n.negative = v.negative ∧
      n.magnitude = (shortest .even v.mantissa v.exponent).digits *
        10 ^ (shortest .even v.mantissa v.exponent).exponent := by
  have hs : (shortest .even v.mantissa v.exponent).digits = 0 →
      (shortest .even v.mantissa v.exponent).exponent = 0 := by
    intro hdigits
    have hm : v.mantissa = 0 := by
      by_contra hm
      exact (hv hm).ne' hdigits
    rw [shortest, if_pos hm]
  obtain ⟨n, hn, hbody, hwell, hreal, hmagnitude⟩ := exists_numeral_digits v.negative
    (v.mantissa = 0 || (-5 ≤ (shortest .even v.mantissa v.exponent).exponent +
        ((Nat.toDigits 10 (shortest .even v.mantissa v.exponent).digits).length : Int) - 1 &&
      (shortest .even v.mantissa v.exponent).exponent +
        ((Nat.toDigits 10 (shortest .even v.mantissa v.exponent).digits).length : Int) - 1 ≤ 15)) hs
  refine ⟨n, ?_, hwell, hreal, hn, hmagnitude⟩
  rw [Numeral.text, hn, hbody, NumberFormat.writeFinite, String.toList_ofList]
  rfl

/-! ## Reading back -/

/-- A number has as many digits as powers of ten below it. -/
theorem length_toDigits_bounds {n : Nat} (hn : 0 < n) :
    (10 : ℚ) ^ (((Nat.toDigits 10 n).length : Int) - 1) ≤ n ∧
      (n : ℚ) < 10 ^ ((Nat.toDigits 10 n).length : Int) := by
  obtain ⟨k, hk⟩ : ∃ k, (Nat.toDigits 10 n).length = k + 1 :=
    ⟨_, (Nat.succ_pred_eq_of_pos (List.length_pos_iff.mpr Nat.toDigits_ne_nil)).symm⟩
  have hhigh : n < 10 ^ (k + 1) := (Nat.length_toDigits_le_iff (by decide) (Nat.succ_pos k)).mp hk.le
  have hlow : 10 ^ k ≤ n := by
    rcases Nat.eq_zero_or_pos k with rfl | hpos
    · exact hn
    · by_contra hlt
      have hle := (Nat.length_toDigits_le_iff (by decide) hpos).mpr (not_le.mp hlt)
      omega
  rw [hk, show ((k + 1 : Nat) : Int) - 1 = k by omega, zpow_natCast, zpow_natCast]
  exact ⟨by exact_mod_cast hlow, by exact_mod_cast hhigh⟩

theorem Interval.Contains.pos {m n : Nat} {q e : Int} (h : (Interval.around m q).Contains (n * 10 ^ e)) (hm : 0 < m) :
    0 < n := by
  rcases Nat.eq_zero_or_pos n with rfl | hpos
  · have hlow : 0 < (Interval.around m q).low := by
      simp only [Interval.around]
      split_ifs <;> omega
    have hedge := h.low
    rw [Nat.cast_zero, zero_mul] at hedge
    exact absurd hedge (not_le.mpr (by positivity))
  · exact hpos

/-- The interval of a double that is not zero keeps away from zero. -/
theorem Interval.Contains.low_le {m : Nat} {q : Int} {x : ℚ} (h : (Interval.around m q).Contains x) (hm : 0 < m)
    (hq : -1074 ≤ q) : 2 ^ (-1075 : Int) ≤ x := by
  have hedge : (2 : ℚ) ≤ (Interval.around m q).low := by
    rw [← Nat.cast_ofNat, Nat.cast_le]
    simp only [Interval.around]
    split_ifs <;> omega
  calc (2 : ℚ) ^ (-1075 : Int) = 2 * 2 ^ (-1076 : Int) := by rw [← zpow_one_add₀ two_ne_zero]; rfl
    _ ≤ (Interval.around m q).low * 2 ^ (q - 2) :=
      mul_le_mul hedge (zpow_le_zpow_right₀ one_le_two (by omega)) (by positivity) (by positivity)
    _ ≤ x := h.low

theorem Interval.Contains.le_high {m : Nat} {q : Int} {x : ℚ} (h : (Interval.around m q).Contains x)
    (hcanonical : IsCanonical m q) (hq : q ≤ 971) : x ≤ 2 ^ (1024 : Int) := by
  have hedge : ((Interval.around m q).high : ℚ) ≤ 2 ^ (55 : Int) := by
    have hcast : ((Interval.around m q).high : ℚ) ≤ (2 ^ 55 : Nat) := by
      rw [Nat.cast_le]
      simp only [Interval.around]
      have := hcanonical.fits
      simp only [fieldUnit] at this
      omega
    exact_mod_cast hcast
  calc x ≤ (Interval.around m q).high * 2 ^ (q - 2) := h.high
    _ ≤ 2 ^ (55 : Int) * 2 ^ (969 : Int) :=
      mul_le_mul hedge (zpow_le_zpow_right₀ one_le_two (by omega)) (by positivity) (by positivity)
    _ = 2 ^ (1024 : Int) := by rw [← zpow_add₀ two_ne_zero]; rfl

/-- A decimal among the doubles has its first digit in a place that the reader does not cut off. -/
theorem width_of_bounds {n : Nat} {e : Int} (hn : 0 < n) (hlow : (2 : ℚ) ^ (-1075 : Int) ≤ n * 10 ^ e)
    (hhigh : (n : ℚ) * 10 ^ e ≤ 2 ^ (1024 : Int)) :
    ¬ ((Nat.toDigits 10 n).length : Int) + e < -330 ∧ ¬ 310 < ((Nat.toDigits 10 n).length : Int) + e := by
  have hdigits := length_toDigits_bounds hn
  have hten : (0 : ℚ) < 10 ^ e := by positivity
  constructor
  · intro hlt
    have hsmall : (n : ℚ) * 10 ^ e < 2 ^ (-1075 : Int) := by
      calc (n : ℚ) * 10 ^ e < 10 ^ ((Nat.toDigits 10 n).length : Int) * 10 ^ e :=
            mul_lt_mul_of_pos_right hdigits.2 hten
        _ = 10 ^ (((Nat.toDigits 10 n).length : Int) + e) := (zpow_add₀ (by norm_num) _ _).symm
        _ ≤ 2 ^ (-1075 : Int) := ten_zpow_le (.inr ⟨by decide, by omega⟩)
    exact absurd hlow (not_le.mpr hsmall)
  · intro hlt
    have hlarge : (2 : ℚ) ^ (1024 : Int) < n * 10 ^ e := by
      have hinv : ((10 : ℚ) ^ (310 : Int))⁻¹ ≤ (2 ^ (1025 : Int))⁻¹ := by
        rw [← zpow_neg, ← zpow_neg]
        exact ten_zpow_le (.inr ⟨by decide, by decide⟩)
      calc (2 : ℚ) ^ (1024 : Int) < 2 ^ (1025 : Int) := zpow_lt_zpow_right₀ one_lt_two (by decide)
        _ ≤ 10 ^ (310 : Int) := (inv_le_inv₀ (by positivity) (by positivity)).mp hinv
        _ ≤ 10 ^ (((Nat.toDigits 10 n).length : Int) - 1 + e) := zpow_le_zpow_right₀ (by norm_num) (by omega)
        _ = 10 ^ (((Nat.toDigits 10 n).length : Int) - 1) * 10 ^ e := zpow_add₀ (by norm_num) _ _
        _ ≤ n * 10 ^ e := mul_le_mul_of_nonneg_right hdigits.1 hten.le
    exact absurd hhigh (not_le.mpr hlarge)

/-- A decimal as a quotient of naturals. -/
theorem quotient_eq (n : Nat) (e : Int) :
    ((n * 10 ^ e.toNat : Nat) : ℚ) / (10 ^ (-e).toNat : Nat) = n * 10 ^ e := by
  rcases Int.le_total 0 e with he | he
  · rw [show (-e).toNat = 0 by omega, pow_zero, Nat.cast_one, div_one]
    push_cast
    rw [ten_zpow_toNat he]
  · rw [show e.toNat = 0 by omega, pow_zero, mul_one, div_eq_mul_inv]
    push_cast
    rw [ten_zpow_toNat (show 0 ≤ -e by omega), zpow_neg, inv_inv]

/-- Whatever text spells a number in the interval of a double is read as that double. -/
theorem ofDecimal_of_contains (negative : Bool) {m : Nat} {q : Int} (h : IsCanonical m q) (hm : 0 < m) (hq : q ≤ 971)
    {n : Nat} {e : Int} (hx : (Interval.around m q).Contains (n * 10 ^ e)) :
    ofDecimal negative n e =
      Float.ofBits (UInt64.ofNat (m + (q + 1074).toNat * fieldUnit + if negative then signBit else 0)) := by
  have hpos := hx.pos hm
  obtain ⟨htop, hbottom⟩ := width_of_bounds hpos (hx.low_le hm h.low) (hx.le_high h hq)
  rw [← quotient_eq] at hx
  simp only [ofDecimal, hpos.ne', htop, hbottom, decide_false, Bool.or_self, Bool.false_eq_true, if_false, nearest,
    Nat.pow_eq, nearestBits_eq h hm hq (Nat.pow_pos (by decide)) hx]

/-- **Numbers in JSON are exact.** A finite double is written as a numeral with a fraction or an exponent, and the
double next to what this numeral spells is the one that was written. -/
theorem exists_numeral_write {x : Float} (hx : x.isFinite = true) :
    ∃ n : Numeral, n.text = (NumberFormat.json.write x).toList ∧ n.IsWellFormed ∧
      (n.places ≠ [] ∨ n.exponent ≠ none) ∧ readFloat n.text = .ok x := by
  obtain ⟨v, hv⟩ := exists_finite hx
  obtain ⟨hcanonical, hhigh, hbits⟩ := Value.bits_of_finite hv
  have hwrite : NumberFormat.json.write x = NumberFormat.json.writeFinite v := by rw [NumberFormat.write, hv]
  rw [hwrite]
  rcases Nat.eq_zero_or_pos v.mantissa with hzero | hpos
  · obtain ⟨n, htext, hwell, hreal, hn, hmagnitude⟩ := exists_numeral_writeFinite (fun h => absurd hzero h)
    refine ⟨n, htext, hwell, hreal, ?_⟩
    have hexponent : v.exponent = -1074 := by
      refine hcanonical.full.resolve_left ?_
      rw [hzero]
      decide
    have hdigits : n.digits = 0 := by
      rw [shortest, if_pos hzero, Nat.cast_zero, zero_mul, Numeral.magnitude, mul_eq_zero] at hmagnitude
      exact Nat.cast_eq_zero.mp (hmagnitude.resolve_right (by positivity))
    rw [hzero, hexponent] at hbits
    rw [n.readFloat_text hwell, hdigits, hn, ← eq_ofBits hbits]
    rfl
  · have hcontains := contains_shortest .even hcanonical hpos hhigh
    obtain ⟨n, htext, hwell, hreal, hn, hmagnitude⟩ := exists_numeral_writeFinite (fun _ => hcontains.pos hpos)
    refine ⟨n, htext, hwell, hreal, ?_⟩
    rw [← hmagnitude] at hcontains
    rw [n.readFloat_text hwell, ofDecimal_of_contains n.negative hcanonical hpos hhigh hcontains, hn, eq_ofBits hbits]

end Backtest.Decimal
