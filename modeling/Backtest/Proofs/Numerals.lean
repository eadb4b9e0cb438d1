import Backtest.Decimal.Format
import Backtest.Decimal.Numeral
import Backtest.Proofs.Characters

/-!
# Numerals

The decimal digits of a number are read back as that number, alone (`natural?_toDigits`) and in front of or
behind a point (`readFloat_digits`, `readFloat_point`). What begins with a capital letter other than those
of `inf` and `nan` is no number (`readFloat_name`).
-/

namespace Backtest

open Text

/-! ## Digits -/

theorem toList_natText (n : Nat) : (Decimal.natText n).toList = Nat.toDigits 10 n := String.toList_ofList

theorem isDigit_toDigits {n : Nat} {c : Char} (hc : c ∈ Nat.toDigits 10 n) : c.isDigit = true :=
  Nat.isDigit_of_mem_toDigits (by decide) (by decide) hc

theorem natOfDigits_toDigits (n : Nat) : natOfDigits (Nat.toDigits 10 n) = n :=
  Nat.ofDigitChars_ten_toDigits

theorem natOfDigits_append (ds es : List Char) :
    natOfDigits (ds ++ es) = 10 ^ es.length * natOfDigits ds + natOfDigits es := by
  show Nat.ofDigitChars 10 (ds ++ es) 0 = _
  rw [Nat.ofDigitChars_append, Nat.ofDigitChars_eq_ofDigitChars_zero]
  rfl

/-- The digits of a period are read as that period. -/
theorem natural?_toDigits {n : Nat} (hn : n < 2 ^ 64) : natural? (Nat.toDigits 10 n) = some n := by
  have hne := Nat.toDigits_ne_nil (b := 10) (n := n)
  have hall : (Nat.toDigits 10 n).all Char.isDigit = true :=
    List.all_eq_true.mpr fun c hc => isDigit_toDigits hc
  have hvalue := natOfDigits_toDigits n
  generalize Nat.toDigits 10 n = ds at hne hall hvalue
  unfold natural?
  split
  · -- a digit is no sign
    exact absurd (List.all_eq_true.mp hall '+' List.mem_cons_self) (by decide)
  · simp only [List.isEmpty_eq_false_iff.mpr hne, hall, hvalue, Bool.not_true, Bool.or_self,
      Bool.false_eq_true, if_false]
    exact if_pos hn

/-! ## Numbers with a point -/

namespace Decimal

variable {ds es : List Char}

theorem numeral?_digits (hds : ∀ c ∈ ds, c.isDigit = true) (hne : ds ≠ []) :
    numeral? ds = some (natOfDigits ds, 0) := by
  have htake : ds.takeWhile Char.isDigit = ds := List.takeWhile_eq_self_iff.mpr hds
  have hdrop : ds.dropWhile Char.isDigit = [] := List.dropWhile_eq_nil_iff.mpr hds
  simp only [numeral?, htake, hdrop, List.isEmpty_eq_false_iff.mpr hne, Bool.false_and,
    Bool.false_eq_true, if_false, exponent?, Option.map_some, List.append_nil]
  rfl

theorem numeral?_point (hds : ∀ c ∈ ds, c.isDigit = true) (hes : ∀ c ∈ es, c.isDigit = true)
    (hne : ds ≠ []) :
    numeral? (ds ++ '.' :: es) = some (natOfDigits (ds ++ es), -(es.length : Int)) := by
  have htake : (ds ++ '.' :: es).takeWhile Char.isDigit = ds := by
    rw [List.takeWhile_append_of_pos hds]
    exact List.append_nil ds
  have hdrop : (ds ++ '.' :: es).dropWhile Char.isDigit = '.' :: es := by
    rw [List.dropWhile_append_of_pos hds]
    rfl
  have htake' : es.takeWhile Char.isDigit = es := List.takeWhile_eq_self_iff.mpr hes
  have hdrop' : es.dropWhile Char.isDigit = [] := List.dropWhile_eq_nil_iff.mpr hes
  simp only [numeral?, htake, hdrop, htake', hdrop', List.isEmpty_eq_false_iff.mpr hne, Bool.false_and,
    Bool.false_eq_true, if_false, exponent?, Option.map_some, Int.zero_sub]

/-- A text whose first letter is neither that of `inf` nor that of `nan`, and which has no sign, is a
numeral or nothing. -/
theorem readFloat_of_first {c : Char} {cs : List Char} (hminus : c ≠ '-') (hplus : c ≠ '+')
    (hi : c.toLower ≠ 'i') (hn : c.toLower ≠ 'n') :
    (∀ m e, numeral? (c :: cs) = some (m, e) → readFloat (c :: cs) = .ok (ofDecimal false m e)) ∧
      (numeral? (c :: cs) = none → readFloat (c :: cs) = .error .malformed) := by
  have hsign : takeSign (c :: cs) = (false, c :: cs) := by
    unfold takeSign
    split
    · rename_i heq
      exact absurd (List.cons.inj heq).1 hminus
    · rename_i heq
      exact absurd (List.cons.inj heq).1 hplus
    · rfl
  have hword : ∀ {w ws}, c.toLower ≠ w → lower (c :: cs) ≠ w :: ws := fun hw heq =>
    hw (List.cons.inj heq).1
  have hinf : lower (c :: cs) ≠ "inf".toList := hword hi
  have hinfinity : lower (c :: cs) ≠ "infinity".toList := hword hi
  have hnan : lower (c :: cs) ≠ "nan".toList := hword hn
  constructor
  · intro m e h
    simp only [readFloat, List.isEmpty_cons, Bool.false_eq_true, if_false, hsign, hinf, hinfinity, hnan,
      decide_false, Bool.or_self, h]
  · intro h
    simp only [readFloat, List.isEmpty_cons, Bool.false_eq_true, if_false, hsign, hinf, hinfinity, hnan,
      decide_false, Bool.or_self, h]

theorem toLower_ne_of_isDigit {d w : Char} (hd : d.isDigit = true) (hw : 97 ≤ w.toNat) : d.toLower ≠ w := by
  have hbounds : 48 ≤ d.toNat ∧ d.toNat ≤ 57 := Char.isDigit_iff_toNat.mp hd
  intro heq
  rcases eq_or_of_toLower heq with rfl | ⟨hupper, -⟩
  · omega
  · have := isUpper_iff.mp hupper
    omega

/-- What begins with a digit has no sign and is no word. -/
theorem readFloat_of_digit {d : Char} {cs : List Char} {m : Nat} {e : Int} (hd : d.isDigit = true)
    (h : numeral? (d :: cs) = some (m, e)) : readFloat (d :: cs) = .ok (ofDecimal false m e) := by
  have hminus : d ≠ '-' := by
    rintro rfl
    exact absurd hd (by decide)
  have hplus : d ≠ '+' := by
    rintro rfl
    exact absurd hd (by decide)
  exact (readFloat_of_first hminus hplus (toLower_ne_of_isDigit hd (by decide))
    (toLower_ne_of_isDigit hd (by decide))).1 m e h

/-- A minus in front of a digit is a sign. -/
theorem readFloat_minus {d : Char} {cs : List Char} {m : Nat} {e : Int} (hd : d.isDigit = true)
    (h : numeral? (d :: cs) = some (m, e)) : readFloat ('-' :: d :: cs) = .ok (ofDecimal true m e) := by
  have hword : ∀ {w ws}, 97 ≤ w.toNat → lower (d :: cs) ≠ w :: ws := fun hw heq =>
    toLower_ne_of_isDigit hd hw (List.cons.inj heq).1
  have hinf : lower (d :: cs) ≠ "inf".toList := hword (by decide)
  have hinfinity : lower (d :: cs) ≠ "infinity".toList := hword (by decide)
  have hnan : lower (d :: cs) ≠ "nan".toList := hword (by decide)
  simp only [readFloat, List.isEmpty_cons, Bool.false_eq_true, if_false, takeSign, hinf, hinfinity, hnan,
    decide_false, Bool.or_self, h]

/-- A decimal with few digits is a quotient. -/
theorem ofDecimal_eq {m k : Nat} (hm : 0 < m) (hm' : m < 10 ^ 100) (hk : k ≤ 100) :
    ofDecimal false m (-(k : Int)) = nearest false m (10 ^ k) := by
  have hlength : (Nat.toDigits 10 m).length ≤ 100 :=
    (Nat.length_toDigits_le_iff (by decide) (by decide)).mpr hm'
  have hlow : ¬ ((Nat.toDigits 10 m).length : Int) + -(k : Int) < -330 := by omega
  have hhigh : ¬ 310 < ((Nat.toDigits 10 m).length : Int) + -(k : Int) := by omega
  have hnum : (-(k : Int)).toNat = 0 := by omega
  have hden : (-(-(k : Int))).toNat = k := by omega
  simp only [ofDecimal, Nat.ne_of_gt hm, hlow, hhigh, decide_false, Bool.or_self, Bool.false_eq_true, if_false,
    hnum, hden, Nat.pow_eq, Nat.pow_zero, Nat.mul_one]

theorem readFloat_digits {ds : List Char} {m : Nat} (hds : ∀ c ∈ ds, c.isDigit = true) (hne : ds ≠ [])
    (hvalue : natOfDigits ds = m) (hm : 0 < m) (hm' : m < 10 ^ 100) :
    readFloat ds = .ok (nearest false m (10 ^ 0)) := by
  subst hvalue
  rw [← ofDecimal_eq hm hm' (Nat.zero_le _)]
  obtain ⟨d, rest, rfl⟩ := List.exists_cons_of_ne_nil hne
  exact readFloat_of_digit (hds d List.mem_cons_self) (numeral?_digits hds hne)

theorem readFloat_point {ds es : List Char} {m : Nat} (hds : ∀ c ∈ ds, c.isDigit = true)
    (hes : ∀ c ∈ es, c.isDigit = true) (hne : ds ≠ []) (hlength : es.length ≤ 100)
    (hvalue : natOfDigits (ds ++ es) = m) (hm : 0 < m) (hm' : m < 10 ^ 100) :
    readFloat (ds ++ '.' :: es) = .ok (nearest false m (10 ^ es.length)) := by
  subst hvalue
  rw [← ofDecimal_eq hm hm' hlength]
  obtain ⟨d, rest, rfl⟩ := List.exists_cons_of_ne_nil hne
  exact readFloat_of_digit (hds d List.mem_cons_self) (numeral?_point hds hes hne)

/-- What begins with a capital letter other than those of `inf` and `nan` is no number. -/
theorem readFloat_name {c : Char} {cs : List Char} (hc : c.isUpper = true) (hi : c ≠ 'I') (hn : c ≠ 'N') :
    readFloat (c :: cs) = .error .malformed := by
  have hbounds := isUpper_iff.mp hc
  have hletter : ∀ w v : Char, 97 ≤ w.toNat → v.toNat + 32 = w.toNat → c ≠ v → c.toLower ≠ w := by
    intro w v hw hv hne heq
    rcases eq_or_of_toLower heq with rfl | ⟨-, hval⟩
    · omega
    · exact hne (Char.toNat_inj.mp (by omega))
  have hdigit : c.isDigit = false := by
    rw [Bool.eq_false_iff, ne_eq, Char.isDigit_iff_toNat]
    rintro ⟨-, hnine⟩
    exact absurd (Nat.le_trans hbounds.1 hnine) (by decide)
  have hnumeral : numeral? (c :: cs) = none := by
    have hne : ¬ c.isDigit = true := by
      rw [hdigit]
      exact Bool.false_ne_true
    unfold numeral?
    simp only [List.takeWhile_cons_of_neg hne, List.dropWhile_cons_of_neg hne]
    split
    · rename_i heq
      rw [(List.cons.inj heq).1] at hc
      exact absurd hc (by decide)
    · rfl
  have hminus : c ≠ '-' := by
    rintro rfl
    exact absurd hc (by decide)
  have hplus : c ≠ '+' := by
    rintro rfl
    exact absurd hc (by decide)
  exact (readFloat_of_first hminus hplus (hletter 'i' 'I' (by decide) (by decide) hi)
    (hletter 'n' 'N' (by decide) (by decide) hn)).2 hnumeral

end Decimal

end Backtest
