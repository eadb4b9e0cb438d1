import Backtest.Proofs.Double

/-!
# Doubles as rational numbers

A finite double stands for a rational number, `toRat`. Its parts are canonical (`exists_parts`): the mantissa
is full unless the exponent is the lowest one. So numbers in order have parts in order
(`compare_ofParts`), and the language compares finite doubles as it should (`le_iff_toRat`, `lt_iff_toRat`).

Bounds of a double that need not be finite are bounds by rational numbers, too: `AtLeast` allows the
positive infinity, and `AtMost` the negative one.
-/

namespace Backtest.Decimal

open Float.Model
open Float.Model.UnpackedFloat

/-! ## Canonical parts -/

/-- The number of a sign and a magnitude. -/
def signed : Sign → ℚ → ℚ
  | .negative, q => -q
  | .positive, q => q

/-- A mantissa and an exponent as they are kept: the mantissa is full unless the exponent is the lowest one.
The exponent may be too high for a double. -/
structure IsCanonical (m : Nat) (e : Int) : Prop where
  fits : m < 2 * fieldUnit
  low : -1074 ≤ e
  full : fieldUnit ≤ m ∨ e = -1074

/-- A finite number in parts; a zero if the mantissa is zero. -/
def ofParts (s : Sign) (m : Nat) (e : Int) : UnpackedFloat :=
  if h : m = 0 then .zero s else .finite s m e (Nat.pos_of_ne_zero h)

theorem ofParts_zero (s : Sign) (e : Int) : ofParts s 0 e = .zero s := dif_pos rfl

theorem ofParts_pos (s : Sign) {m : Nat} (hm : 0 < m) (e : Int) : ofParts s m e = .finite s m e hm :=
  dif_neg hm.ne'

theorem isFinite_ofParts (s : Sign) (m : Nat) (e : Int) : (ofParts s m e).isFinite = true := by
  rw [ofParts]
  split_ifs <;> rfl

/-- A number below the full mantissas keeps its parts. -/
theorem unpack_pack_subnormal {s : Sign} {m : Nat} (hm : 0 < m) (hlt : m < fieldUnit) :
    (Float.Model.pack (.finite s m (-1074) hm)).unpack = .finite s m (-1074) hm := by
  have hlog : m.log2 + 1 ≠ Format.binary64.mantissaBits := by
    have := (Nat.log2_lt (k := 52) hm.ne').mpr hlt
    simp only [Format.mantissaBits]
    omega
  have hmantissa : (BitVec.ofNat 52 m).toNat = m := Nat.mod_eq_of_lt hlt
  have hpack : UnpackedFloat.pack Format.binary64 (.finite s m (-1074) hm) =
      packComponents Format.binary64 s 0#11 (BitVec.ofNat 52 m) := by
    simp only [UnpackedFloat.pack, hlog, if_false]
    exact if_neg (by decide)
  have hne : BitVec.ofNat 52 m ≠ 0#52 := by
    rw [ne_eq, ← BitVec.toNat_inj, hmantissa]
    exact hm.ne'
  have hbottom : (0#11 : BitVec 11) ≠ -1#11 := by decide
  show UnpackedFloat.unpack Format.binary64 (UnpackedFloat.pack Format.binary64 _) = _
  rw [hpack]
  simp only [UnpackedFloat.unpack, unpackExponent_packComponents, unpackMantissa_packComponents,
    unpackSign_packComponents, ofBitVec_toBitVec, hbottom, hne, if_false, if_true, dite_false, hmantissa]
  rfl

theorem unpack_pack_infinity (s : Sign) : (Float.Model.pack (.infinity s)).unpack = .infinity s := by
  cases s <;> rfl

/-- Packing keeps canonical parts, unless the exponent is too high. -/
theorem unpack_pack_ofParts {s : Sign} {m : Nat} {e : Int} (h : IsCanonical m e) :
    (Float.Model.pack (ofParts s m e)).unpack = if e ≤ 971 then ofParts s m e else .infinity s := by
  obtain ⟨hfits, hlow, hfull⟩ := h
  rcases Nat.eq_zero_or_pos m with rfl | hm
  · obtain rfl : e = -1074 := hfull.resolve_left (by decide)
    cases s <;> rfl
  rw [ofParts_pos s hm]
  split_ifs with hhigh
  · by_cases hnormal : fieldUnit ≤ m
    · exact unpack_pack ⟨hnormal, hfits, hlow, hhigh⟩
    · obtain rfl : e = -1074 := hfull.resolve_left hnormal
      exact unpack_pack_subnormal hm (Nat.lt_of_not_le hnormal)
  · have hbiased : 2 ^ 11 ≤ (e + Format.binary64.exponentBias + (52 : Nat)).toNat + 1 := by
      simp only [Format.exponentBias]
      omega
    have hpack : UnpackedFloat.pack Format.binary64 (.finite s m e hm) =
        UnpackedFloat.pack Format.binary64 (.infinity s) := if_pos hbiased
    rw [← unpack_pack_infinity s]
    show UnpackedFloat.unpack Format.binary64 (UnpackedFloat.pack Format.binary64 _) = _
    rw [hpack]
    rfl

/-- A bit pattern is no number, or infinite, or has canonical parts; its highest bit is the sign. -/
theorem unpack_cases (b : BitVec Format.binary64.numBits) :
    UnpackedFloat.unpack Format.binary64 b = .notANumber ∨
      UnpackedFloat.unpack Format.binary64 b = .infinity (.ofBitVec (unpackSign b)) ∨
      ∃ m e, IsCanonical m e ∧ e ≤ 971 ∧
        UnpackedFloat.unpack Format.binary64 b = ofParts (.ofBitVec (unpackSign b)) m e := by
  have hexponent := unpackExponent_lt b
  have hmantissa : (unpackMantissa b).toNat < fieldUnit := (unpackMantissa b).isLt
  rw [UnpackedFloat.unpack]
  split_ifs with htop hinf hbottom hzero
  · exact .inr (.inl rfl)
  · exact .inl rfl
  · exact .inr (.inr ⟨0, -1074, ⟨by decide, le_rfl, .inr rfl⟩, by decide, (ofParts_zero _ _).symm⟩)
  · refine .inr (.inr ⟨(unpackMantissa b).toNat, -1074, ⟨by omega, le_rfl, .inr rfl⟩, by decide, ?_⟩)
    have hpos : 0 < (unpackMantissa b).toNat := by
      simpa [BitVec.toNat_pos, BitVec.pos_iff_ne_zero] using hzero
    simp only [ofParts_pos _ hpos, hbottom]
    rfl
  · have htop' : (unpackExponent b).toNat ≠ 2047 := fun h => htop (BitVec.eq_of_toNat_eq h)
    have hbottom' : (unpackExponent b).toNat ≠ 0 := fun h => hbottom (BitVec.eq_of_toNat_eq h)
    refine .inr (.inr ⟨(1#1 ++ unpackMantissa b).toNat, (unpackExponent b).toNat - 1075, ?_, by omega, ?_⟩)
    · rw [toNat_append_fraction]
      exact ⟨by omega, by omega, .inl (by omega)⟩
    · have hpos : 0 < (1#1 ++ unpackMantissa b).toNat := by
        rw [toNat_append_fraction]
        exact Nat.add_pos_left (by decide) _
      rw [ofParts_pos _ hpos]
      rfl

/-- A finite double has canonical parts. -/
theorem exists_parts {x : Float} (hx : x.isFinite = true) :
    ∃ s m e, IsCanonical m e ∧ e ≤ 971 ∧ x.toModel.unpack = ofParts s m e := by
  have hfinite : x.toModel.unpack.isFinite = true := hx
  rcases unpack_cases x.toModel.toBits.toBitVec with hnan | hinf | hparts
  · rw [Float.Model.unpack, hnan] at hfinite
    cases hfinite
  · rw [Float.Model.unpack, hinf] at hfinite
    cases hfinite
  · exact ⟨_, hparts⟩

section

variable {x : Float} {s : Sign}

theorem isNaN_of_isFinite (hx : x.isFinite = true) : x.isNaN = false := by
  obtain ⟨s, m, e, -, -, hparts⟩ := exists_parts hx
  show x.toModel.unpack.isNaN = false
  rw [hparts, ofParts]
  split_ifs <;> rfl

theorem isNaN_of_infinite (hx : x.toModel.unpack = .infinity s) : x.isNaN = false := by
  show x.toModel.unpack.isNaN = false
  rw [hx]
  rfl

theorem unpack_ne_infinity (hx : x.isFinite = true) : x.toModel.unpack ≠ .infinity s := by
  intro hinf
  have hfinite : x.toModel.unpack.isFinite = true := hx
  rw [hinf] at hfinite
  cases hfinite

/-- What is not a NaN is finite or infinite. -/
theorem infinite_of_not_finite (hx : x.isNaN = false) (hfinite : ¬ x.isFinite = true) :
    ∃ s, x.toModel.unpack = .infinity s := by
  have hnan : x.toModel.unpack.isNaN = false := hx
  have hnot : ¬ x.toModel.unpack.isFinite = true := hfinite
  cases hu : x.toModel.unpack with
  | notANumber =>
    rw [hu] at hnan
    cases hnan
  | infinity s => exact ⟨s, rfl⟩
  | zero s => exact absurd (by rw [hu]; rfl) hnot
  | finite s m e hm => exact absurd (by rw [hu]; rfl) hnot

end

/-! ## Values -/

/-- The value of the parts of a finite number. -/
def rational : UnpackedFloat → ℚ
  | .finite s m e _ => signed s (m * 2 ^ e)
  | _ => 0

/-- The value of a finite double. -/
def toRat (x : Float) : ℚ := rational x.toModel.unpack

theorem signed_zero (s : Sign) : signed s 0 = 0 := by
  cases s
  · exact neg_zero
  · rfl

theorem rational_ofParts (s : Sign) (m : Nat) (e : Int) : rational (ofParts s m e) = signed s (m * 2 ^ e) := by
  rcases Nat.eq_zero_or_pos m with rfl | hm
  · rw [ofParts_zero, Nat.cast_zero, zero_mul, signed_zero]
    rfl
  · rw [ofParts_pos s hm]
    rfl

theorem magnitude_pos {m : Nat} (hm : 0 < m) (e : Int) : (0 : ℚ) < m * 2 ^ e := by
  have : (0 : ℚ) < m := Nat.cast_pos.mpr hm
  positivity

/-- Of two canonical numbers, the one with the higher exponent is greater. -/
theorem magnitude_lt_of_lt {m m' : Nat} {e e' : Int} (h : IsCanonical m e) (h' : IsCanonical m' e')
    (he : e < e') : (m : ℚ) * 2 ^ e < m' * 2 ^ e' := by
  have hfull : fieldUnit ≤ m' := h'.full.resolve_right (by have := h.low; omega)
  have hfits : (m : ℚ) < 2 ^ (53 : Int) := by exact_mod_cast h.fits
  have hfull' : (2 : ℚ) ^ (52 : Int) ≤ m' := by exact_mod_cast hfull
  calc (m : ℚ) * 2 ^ e < 2 ^ (53 : Int) * 2 ^ e := mul_lt_mul_of_pos_right hfits (by positivity)
    _ = 2 ^ (53 + e) := (zpow_add₀ two_ne_zero _ _).symm
    _ ≤ 2 ^ (52 + e') := zpow_le_zpow_right₀ one_le_two (by omega)
    _ = 2 ^ (52 : Int) * 2 ^ e' := zpow_add₀ two_ne_zero _ _
    _ ≤ m' * 2 ^ e' := mul_le_mul_of_nonneg_right hfull' (by positivity)

/-- Canonical parts are compared as their magnitudes. -/
theorem compare_magnitude {m m' : Nat} {e e' : Int} (h : IsCanonical m e) (h' : IsCanonical m' e') :
    (compare e e').then (compare m m') = compare ((m : ℚ) * 2 ^ e) (m' * 2 ^ e') := by
  rcases lt_trichotomy e e' with hlt | rfl | hgt
  · rw [compare_lt_iff_lt.mpr hlt, compare_lt_iff_lt.mpr (magnitude_lt_of_lt h h' hlt)]
    rfl
  · have hpos : (0 : ℚ) < 2 ^ e := by positivity
    have hmono : StrictMono fun n : Nat => (n : ℚ) * 2 ^ e := fun a b hab =>
      mul_lt_mul_of_pos_right (Nat.cast_lt.mpr hab) hpos
    rw [compare_eq_iff_eq.mpr rfl, ← cmp_eq_compare, ← cmp_eq_compare]
    exact (hmono.cmp_map_eq m m').symm
  · rw [compare_gt_iff_gt.mpr hgt, compare_gt_iff_gt.mpr (magnitude_lt_of_lt h' h hgt)]
    rfl

theorem compare_neg (p q : ℚ) : compare (-p) (-q) = (compare p q).swap := by
  rcases lt_trichotomy p q with h | rfl | h
  · rw [compare_lt_iff_lt.mpr h, compare_gt_iff_gt.mpr (neg_lt_neg h)]
    rfl
  · rw [compare_eq_iff_eq.mpr rfl, compare_eq_iff_eq.mpr rfl]
    rfl
  · rw [compare_gt_iff_gt.mpr h, compare_lt_iff_lt.mpr (neg_lt_neg h)]
    rfl

/-- The language compares numbers in parts as rational numbers. -/
theorem compare_ofParts {s t : Sign} {m m' : Nat} {e e' : Int} (h : IsCanonical m e) (h' : IsCanonical m' e') :
    (ofParts s m e).compare (ofParts t m' e') =
      some (compare (rational (ofParts s m e)) (rational (ofParts t m' e'))) := by
  rw [rational_ofParts, rational_ofParts]
  rcases Nat.eq_zero_or_pos m with rfl | hm
  · rw [ofParts_zero, Nat.cast_zero, zero_mul, signed_zero]
    rcases Nat.eq_zero_or_pos m' with rfl | hm'
    · rw [ofParts_zero, Nat.cast_zero, zero_mul, signed_zero]
      rfl
    · have hpos := magnitude_pos hm' e'
      rw [ofParts_pos t hm']
      cases t with
      | positive => exact congrArg some (compare_lt_iff_lt.mpr hpos).symm
      | negative => exact congrArg some (compare_gt_iff_gt.mpr (neg_lt_zero.mpr hpos)).symm
  · have hpos := magnitude_pos hm e
    rw [ofParts_pos s hm]
    rcases Nat.eq_zero_or_pos m' with rfl | hm'
    · rw [ofParts_zero, Nat.cast_zero, zero_mul, signed_zero]
      cases s with
      | positive => exact congrArg some (compare_gt_iff_gt.mpr hpos).symm
      | negative => exact congrArg some (compare_lt_iff_lt.mpr (neg_lt_zero.mpr hpos)).symm
    · have hpos' := magnitude_pos hm' e'
      rw [ofParts_pos t hm']
      cases s with
      | positive =>
        cases t with
        | positive => exact congrArg some (compare_magnitude h h')
        | negative => exact congrArg some (compare_gt_iff_gt.mpr ((neg_lt_zero.mpr hpos').trans hpos)).symm
      | negative =>
        cases t with
        | positive => exact congrArg some (compare_lt_iff_lt.mpr ((neg_lt_zero.mpr hpos).trans hpos')).symm
        | negative =>
          rw [signed, signed, compare_neg, ← compare_magnitude h h']
          rfl

section

variable {x y : Float} (hx : x.isFinite = true) (hy : y.isFinite = true)

include hx hy

/-- The language compares finite doubles as rational numbers. -/
theorem compare_toRat : x.toModel.unpack.compare y.toModel.unpack = some (compare (toRat x) (toRat y)) := by
  obtain ⟨s, m, e, h, -, hxm⟩ := exists_parts hx
  obtain ⟨t, m', e', h', -, hym⟩ := exists_parts hy
  rw [toRat, toRat, hxm, hym, compare_ofParts h h']

theorem lt_iff_toRat : x < y ↔ toRat x < toRat y := by
  rw [lt_iff_unpack, UnpackedFloat.lt, compare_toRat hx hy, ← compare_lt_iff_lt]
  cases compare (toRat x) (toRat y) <;> decide

theorem le_iff_toRat : x ≤ y ↔ toRat x ≤ toRat y := by
  rw [le_iff_unpack, UnpackedFloat.le, compare_toRat hx hy, ← compare_le_iff_le]
  cases compare (toRat x) (toRat y) <;> decide

end

theorem neg_ofParts (s : Sign) (m : Nat) (e : Int) : (ofParts s m e).neg = ofParts (-s) m e := by
  rcases Nat.eq_zero_or_pos m with rfl | hm
  · rw [ofParts_zero, ofParts_zero]
    rfl
  · rw [ofParts_pos s hm, ofParts_pos (-s) hm]
    rfl

theorem signed_neg (s : Sign) (q : ℚ) : signed (-s) q = -signed s q := by
  cases s
  · exact (neg_neg q).symm
  · rfl

theorem toRat_neg {x : Float} (hx : x.isFinite = true) : toRat (-x) = -toRat x := by
  obtain ⟨s, m, e, h, he, hxm⟩ := exists_parts hx
  have hneg : (-x).toModel.unpack = (Float.Model.pack x.toModel.unpack.neg).unpack := rfl
  rw [toRat, toRat, hneg, hxm, neg_ofParts, unpack_pack_ofParts h, if_pos he, rational_ofParts,
    rational_ofParts, signed_neg]

/-! ## Bounds -/

/-- A double that is a number from `q` on, or the positive infinity. -/
def AtLeast (q : ℚ) (x : Float) : Prop :=
  x.isFinite = true ∧ q ≤ toRat x ∨ x.toModel.unpack = .infinity .positive

/-- A double that is a number up to `q`, or the negative infinity. -/
def AtMost (q : ℚ) (x : Float) : Prop :=
  x.isFinite = true ∧ toRat x ≤ q ∨ x.toModel.unpack = .infinity .negative

section

variable {p q : ℚ} {x y : Float}

theorem AtLeast.mono (h : AtLeast q x) (hpq : p ≤ q) : AtLeast p x :=
  h.imp_left fun ⟨hx, hq⟩ => ⟨hx, hpq.trans hq⟩

theorem AtLeast.isNaN_eq_false (h : AtLeast q x) : x.isNaN = false := by
  rcases h with ⟨hx, -⟩ | hx
  · exact isNaN_of_isFinite hx
  · exact isNaN_of_infinite hx

/-- Nothing that is a number is above the positive infinity. -/
theorem AtLeast.le_infinity (h : AtLeast q x) (hy : y.toModel.unpack = .infinity .positive) : x ≤ y := by
  rw [le_iff_unpack, hy]
  rcases h with ⟨hx, -⟩ | hx
  · obtain ⟨s, m, e, -, -, hxm⟩ := exists_parts hx
    rw [hxm, ofParts]
    split_ifs <;> rfl
  · rw [hx]
    rfl

/-- The language compares a bound as a rational number is compared. -/
theorem AtLeast.le (h : AtLeast q x) (hy : y.isFinite = true) (hle : toRat y ≤ q) : y ≤ x := by
  rcases h with ⟨hx, hq⟩ | hx
  · exact (le_iff_toRat hy hx).mpr (hle.trans hq)
  · exact AtLeast.le_infinity (.inl ⟨hy, le_rfl⟩) hx

/-- A double with bounds on both sides is finite. -/
theorem AtLeast.finite (h : AtLeast p x) (h' : AtMost q x) : x.isFinite = true ∧ p ≤ toRat x ∧ toRat x ≤ q := by
  rcases h with ⟨hx, hp⟩ | hx
  · exact ⟨hx, hp, (h'.resolve_right (unpack_ne_infinity hx)).2⟩
  · rcases h' with ⟨hfinite, -⟩ | hx'
    · exact absurd hx (unpack_ne_infinity hfinite)
    · rw [hx] at hx'
      cases hx'

end

end Backtest.Decimal
