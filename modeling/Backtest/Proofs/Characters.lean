import Mathlib
import Backtest.Text

/-!
# Characters of names

Names are read in any case and with blanks around them. A text that is written in capitals and without
blanks (`IsPlain`) is read as it stands: `upper_eq_self`, `trim_eq_self`.
-/

namespace Backtest

/-! ## Case -/

theorem isLower_iff {c : Char} : c.isLower = true ↔ 97 ≤ c.toNat ∧ c.toNat ≤ 122 := by
  simp only [Char.isLower, Bool.and_eq_true, decide_eq_true_eq]
  exact Iff.rfl

theorem isUpper_iff {c : Char} : c.isUpper = true ↔ 65 ≤ c.toNat ∧ c.toNat ≤ 90 := by
  simp only [Char.isUpper, decide_eq_true_eq]
  exact Iff.rfl

/-- A small letter comes from itself or from the capital letter. -/
theorem eq_or_of_toLower {c w : Char} (h : c.toLower = w) :
    c = w ∨ c.isUpper = true ∧ c.toNat + 32 = w.toNat := by
  by_cases hc : c.isUpper = true
  · have hbounds := isUpper_iff.mp hc
    refine .inr ⟨hc, ?_⟩
    rw [← h, Char.toLower_eq_of_isUpper hc, Char.toNat_ofNat, if_pos]
    exact .inl (by omega)
  · refine .inl ?_
    rw [← h, Char.toLower_eq_of_not_isUpper hc]

/-! ## Plain characters -/

/-- A printed ASCII character that is no small letter. It is no blank, and its own capital. -/
def IsPlain (c : Char) : Prop := 33 ≤ c.toNat ∧ c.toNat ≤ 126 ∧ c.isLower = false

instance (c : Char) : Decidable (IsPlain c) :=
  inferInstanceAs (Decidable (33 ≤ c.toNat ∧ c.toNat ≤ 126 ∧ c.isLower = false))

theorem isPlain_of_isUpper {c : Char} (h : c.isUpper = true) : IsPlain c := by
  have := isUpper_iff.mp h
  rw [IsPlain, Bool.eq_false_iff, ne_eq, isLower_iff]
  omega

theorem isPlain_of_isDigit {c : Char} (h : c.isDigit = true) : IsPlain c := by
  have : 48 ≤ c.toNat ∧ c.toNat ≤ 57 := Char.isDigit_iff_toNat.mp h
  rw [IsPlain, Bool.eq_false_iff, ne_eq, isLower_iff]
  omega

theorem IsPlain.isBlank_eq_false {c : Char} (h : IsPlain c) : Text.isBlank c = false := by
  obtain ⟨hlow, hhigh, -⟩ := h
  simp only [Text.isBlank, Bool.or_eq_false_iff, Bool.and_eq_false_iff, decide_eq_false_iff_not]
  omega

namespace Text

variable {cs : List Char}

theorem upper_eq_self (h : ∀ c ∈ cs, IsPlain c) : upper cs = cs := by
  have hupper : ∀ c ∈ cs, c.toUpper = c := fun c hc =>
    Char.toUpper_eq_of_not_isLower (Bool.eq_false_iff.mp (h c hc).2.2)
  rw [upper, List.map_congr_left hupper, List.map_id']

theorem dropWhile_isBlank_eq_self (h : ∀ c ∈ cs, IsPlain c) : cs.dropWhile isBlank = cs := by
  cases cs with
  | nil => rfl
  | cons c cs =>
    apply List.dropWhile_cons_of_neg
    rw [(h c List.mem_cons_self).isBlank_eq_false]
    exact Bool.false_ne_true

theorem trim_eq_self (h : ∀ c ∈ cs, IsPlain c) : trim cs = cs := by
  rw [trim, trimLeft, dropWhile_isBlank_eq_self h, trimRight,
    dropWhile_isBlank_eq_self fun c hc => h c (List.mem_reverse.mp hc), List.reverse_reverse]

end Text

/-! ## Bytes -/

theorem utf8ByteSize_ofList (cs : List Char) :
    (String.ofList cs).utf8ByteSize = (cs.map Char.utf8Size).sum := by
  induction cs with
  | nil => rfl
  | cons c cs ih =>
    rw [String.ofList_cons, String.utf8ByteSize_append, String.utf8ByteSize_singleton, ih, List.map_cons,
      List.sum_cons]

theorem length_le_utf8ByteSize (cs : List Char) : cs.length ≤ (String.ofList cs).utf8ByteSize := by
  rw [utf8ByteSize_ofList]
  induction cs with
  | nil => exact Nat.zero_le _
  | cons c cs ih =>
    have := c.utf8Size_pos
    rw [List.map_cons, List.sum_cons, List.length_cons]
    omega

/-- A plain character is one byte. -/
theorem utf8ByteSize_of_isPlain {cs : List Char} (h : ∀ c ∈ cs, IsPlain c) :
    (String.ofList cs).utf8ByteSize = cs.length := by
  rw [utf8ByteSize_ofList]
  induction cs with
  | nil => rfl
  | cons c cs ih =>
    obtain ⟨-, hhigh, -⟩ := h c List.mem_cons_self
    have hone : c.utf8Size = 1 :=
      Char.utf8Size_eq_one_iff.mpr (UInt32.le_iff_toNat_le.mpr (Nat.le_trans hhigh (by decide)))
    rw [List.map_cons, List.sum_cons, List.length_cons, hone, ih fun d hd => h d (List.mem_cons_of_mem c hd),
      Nat.add_comm]

end Backtest
