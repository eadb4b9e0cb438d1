import Mathlib
import Backtest.Decimal.Binary

/-!
# Doubles and their parts

The language takes a double apart into sign, exponent and mantissa, and computes with these parts;
`Value.ofFloat` reads a bit pattern by division. `Value.ofFloat_eq` says that both see the same number.
From there on doubles are numbers `± m · 2 ^ e`:

* `unpack_pack`: a number with a full mantissa and a fitting exponent is not changed by packing it.
* `unpack_ofBits`: the number that a bit pattern of exponent field and fraction stands for.
* `isFinite_pack`, `isFinite_neg`: what is finite.
* `not_lt_of_le`: of two doubles, the one that is at most the other is not greater.
* `unpack_eq_of_le_of_le`: doubles that compare as equal are the same, up to the sign of a zero.
-/

namespace Backtest.Decimal

open Float.Model
open Float.Model.UnpackedFloat

/-! ## The fields of a bit pattern -/

section

variable (b : BitVec Format.binary64.numBits)

theorem toNat_unpackMantissa : (unpackMantissa b).toNat = b.toNat % fieldUnit := by
  simp [unpackMantissa, fieldUnit]

theorem toNat_unpackExponent :
    (unpackExponent b).toNat = b.toNat / fieldUnit % (fieldMax + 1) := by
  simp [unpackExponent, fieldUnit, fieldMax, Nat.shiftRight_eq_div_pow]

theorem unpackExponent_lt : (unpackExponent b).toNat < 2048 := BitVec.isLt _

theorem toNat_unpackSign : (unpackSign b).toNat = b.toNat / signBit := by
  have hb : b.toNat < 2 ^ 64 := b.isLt
  simp only [unpackSign, signBit, BitVec.extractLsb_toNat, BitVec.toNat_cast, Nat.shiftRight_eq_div_pow]
  omega

end

theorem toNat_packComponents (s : Sign) (e : BitVec 11) (m : BitVec 52) :
    (packComponents Format.binary64 s e m).toNat =
      s.toBitVec.toNat * signBit + e.toNat * fieldUnit + m.toNat := by
  have he := e.isLt
  rw [packComponents, BitVec.toNat_append, ← Nat.shiftLeft_add_eq_or_of_lt m.isLt, BitVec.toNat_append,
    ← Nat.shiftLeft_add_eq_or_of_lt e.isLt]
  simp only [Nat.shiftLeft_eq, signBit, fieldUnit]
  omega

theorem unpackSign_packComponents (s : Sign) (e : BitVec 11) (m : BitVec 52) :
    unpackSign (packComponents Format.binary64 s e m) = s.toBitVec := by
  have he := e.isLt
  have hm := m.isLt
  apply BitVec.eq_of_toNat_eq
  rw [toNat_unpackSign, toNat_packComponents]
  simp only [signBit, fieldUnit]
  omega

theorem ofBitVec_toBitVec (s : Sign) : Sign.ofBitVec s.toBitVec = s := by
  cases s <;> rfl

/-- The leading bit of a full mantissa stands in front of the fraction. -/
theorem toNat_append_fraction (m : BitVec 52) : (1#1 ++ m).toNat = fieldUnit + m.toNat := by
  rw [BitVec.toNat_append, ← Nat.shiftLeft_add_eq_or_of_lt m.isLt]
  rfl

/-! ## The value of a double -/

/-- Whether a sign is negative. -/
def isNegative : Sign → Bool
  | .negative => true
  | .positive => false

/-- The value of the parts of a double. -/
def Value.ofUnpacked : UnpackedFloat → Value
  | .notANumber => .nan
  | .infinity s => .infinite (isNegative s)
  | .zero s => .finite ⟨isNegative s, 0, -1074⟩
  | .finite s m e _ => .finite ⟨isNegative s, m, e⟩

theorem isNegative_unpackSign (b : BitVec Format.binary64.numBits) :
    isNegative (.ofBitVec (unpackSign b)) = decide (signBit ≤ b.toNat) := by
  have hb : b.toNat < 2 ^ 64 := b.isLt
  have hsign := toNat_unpackSign b
  by_cases h : unpackSign b = 0#1
  · rw [h] at hsign ⊢
    have hlt : ¬ signBit ≤ b.toNat := by
      simp only [signBit, BitVec.toNat_zero] at hsign ⊢
      omega
    simp [Sign.ofBitVec, isNegative, hlt]
  · have hone : (unpackSign b).toNat ≠ 0 := fun h0 => h (BitVec.eq_of_toNat_eq h0)
    have hle : signBit ≤ b.toNat := by
      rw [hsign] at hone
      simp only [signBit] at hone ⊢
      omega
    simp [Sign.ofBitVec, isNegative, h, hle]

/-- The bit pattern of a double is read as the language reads it. -/
theorem Value.ofFloat_eq (x : Float) : Value.ofFloat x = .ofUnpacked x.toModel.unpack := by
  have hbits : x.toBits.toNat = x.toModel.toBits.toBitVec.toNat := rfl
  rw [Value.ofFloat, hbits, Float.Model.unpack]
  generalize x.toModel.toBits.toBitVec = b
  simp only [← toNat_unpackMantissa b, ← toNat_unpackExponent b, ← isNegative_unpackSign b,
    UnpackedFloat.unpack, ← BitVec.toNat_inj]
  have hmax : (-1#11 : BitVec 11).toNat = fieldMax := rfl
  simp only [hmax, BitVec.toNat_zero]
  split_ifs with htop hinf hbottom hzero
  · rfl
  · rfl
  · simp only [ofUnpacked, hzero]
  · simp only [ofUnpacked, hbottom]
    rfl
  · simp only [ofUnpacked, toNat_append_fraction]
    rfl

/-! ## Numbers with a full mantissa -/

/-- A mantissa and an exponent of a normal number. -/
structure IsNormal (m : Nat) (e : Int) : Prop where
  full : fieldUnit ≤ m
  fits : m < 2 * fieldUnit
  low : -1074 ≤ e
  high : e ≤ 971

theorem IsNormal.pos {m : Nat} {e : Int} (h : IsNormal m e) : 0 < m :=
  Nat.lt_of_lt_of_le (by decide) h.full

/-- The fields of a normal number. -/
theorem unpack_packComponents {s : Sign} {field fraction : Nat} (hlow : 1 ≤ field)
    (hhigh : field < fieldMax) (hfraction : fraction < fieldUnit) :
    UnpackedFloat.unpack Format.binary64
        (packComponents Format.binary64 s (BitVec.ofNat 11 field) (BitVec.ofNat 52 fraction)) =
      .finite s (fieldUnit + fraction) (field - 1075) (Nat.add_pos_left (by decide) _) := by
  have hfield : (BitVec.ofNat 11 field).toNat = field :=
    Nat.mod_eq_of_lt (Nat.lt_trans hhigh (by decide))
  have hmantissa : (1#1 ++ BitVec.ofNat 52 fraction).toNat = fieldUnit + fraction := by
    rw [toNat_append_fraction, BitVec.toNat_ofNat]
    exact congrArg (fieldUnit + ·) (Nat.mod_eq_of_lt hfraction)
  have htop : BitVec.ofNat 11 field ≠ -1#11 := by
    rw [ne_eq, ← BitVec.toNat_inj, hfield]
    exact Nat.ne_of_lt hhigh
  have hbottom : BitVec.ofNat 11 field ≠ 0#11 := by
    rw [ne_eq, ← BitVec.toNat_inj, hfield]
    exact Nat.ne_of_gt hlow
  simp only [UnpackedFloat.unpack, unpackExponent_packComponents, unpackMantissa_packComponents,
    unpackSign_packComponents, ofBitVec_toBitVec, htop, hbottom, if_false, hfield, hmantissa]
  rfl

theorem log2_of_full {m : Nat} (hlow : fieldUnit ≤ m) (hhigh : m < 2 * fieldUnit) : m.log2 = 52 := by
  rw [Nat.log2_eq_iff (by simp only [fieldUnit] at hlow; omega)]
  simp only [fieldUnit] at hlow hhigh
  omega

/-- Packing loses nothing of a normal number. -/
theorem unpack_pack {s : Sign} {m : Nat} {e : Int} (h : IsNormal m e) :
    (Float.Model.pack (.finite s m e h.pos)).unpack = .finite s m e h.pos := by
  obtain ⟨hfull, hfits, hlow, hhigh⟩ := h
  obtain ⟨field, rfl⟩ : ∃ field : Nat, e = field - 1075 := ⟨(e + 1075).toNat, by omega⟩
  obtain ⟨fraction, rfl⟩ : ∃ fraction : Nat, m = fieldUnit + fraction := ⟨m - fieldUnit, by omega⟩
  have hbiased : ((field : Int) - 1075 + Format.binary64.exponentBias + (52 : Nat)).toNat = field := by
    simp only [Format.exponentBias]
    omega
  have hfraction : BitVec.ofNat 52 (fieldUnit + fraction) = BitVec.ofNat 52 fraction := by
    apply BitVec.eq_of_toNat_eq
    simp only [BitVec.toNat_ofNat, fieldUnit]
    omega
  have hpack : ∀ hpos, UnpackedFloat.pack Format.binary64 (.finite s (fieldUnit + fraction) (field - 1075) hpos) =
      packComponents Format.binary64 s (BitVec.ofNat 11 field) (BitVec.ofNat 52 fraction) := by
    intro hpos
    simp only [UnpackedFloat.pack, hbiased, log2_of_full hfull hfits, hfraction]
    rw [if_neg (by omega)]
    exact if_pos rfl
  show UnpackedFloat.unpack Format.binary64 (UnpackedFloat.pack Format.binary64 _) = _
  rw [hpack, unpack_packComponents (by omega) (by simp only [fieldMax]; omega) (by omega)]

/-- The number of a bit pattern with an exponent field and a fraction. -/
theorem unpack_ofBits {field fraction : Nat} (hlow : 1 ≤ field) (hhigh : field < fieldMax)
    (hfraction : fraction < fieldUnit) :
    (Float.ofBits (UInt64.ofNat (fraction + field * fieldUnit))).toModel.unpack =
      .finite .positive (fieldUnit + fraction) (field - 1075) (Nat.add_pos_left (by decide) _) := by
  have hbits : (UInt64.ofNat (fraction + field * fieldUnit)).toBitVec =
      packComponents Format.binary64 .positive (BitVec.ofNat 11 field) (BitVec.ofNat 52 fraction) := by
    apply BitVec.eq_of_toNat_eq
    rw [toNat_packComponents, UInt64.toBitVec_ofNat', BitVec.toNat_ofNat, BitVec.toNat_ofNat,
      BitVec.toNat_ofNat]
    simp only [fieldUnit, fieldMax, Sign.toBitVec, BitVec.toNat_zero] at *
    omega
  have hnormal : IsNormal (fieldUnit + fraction) (field - 1075) := by
    simp only [fieldMax] at hhigh
    exact ⟨by omega, by omega, by omega, by omega⟩
  show (Float.Model.pack (UnpackedFloat.unpack Format.binary64 _)).unpack = _
  rw [hbits, unpack_packComponents hlow hhigh hfraction, unpack_pack hnormal]

/-! ## Finite doubles -/

theorem isFinite_packComponents {s : Sign} {e : BitVec 11} {m : BitVec 52} (he : e ≠ -1#11) :
    (UnpackedFloat.unpack Format.binary64 (packComponents Format.binary64 s e m)).isFinite = true := by
  simp only [UnpackedFloat.unpack, unpackExponent_packComponents, he, if_false]
  split_ifs <;> rfl

theorem isFinite_pack {s : Sign} {m : Nat} {e : Int} (hpos : 0 < m) (he : e ≤ 971) :
    (Float.Model.pack (.finite s m e hpos)).isFinite = true := by
  have hbiased : ¬ 2 ^ 11 ≤ (e + Format.binary64.exponentBias + (52 : Nat)).toNat + 1 := by
    simp only [Format.exponentBias]
    omega
  show (UnpackedFloat.unpack Format.binary64 (UnpackedFloat.pack Format.binary64 _)).isFinite = true
  simp only [UnpackedFloat.pack, hbiased, if_false]
  split_ifs with hfull
  · apply isFinite_packComponents
    rw [ne_eq, ← BitVec.toNat_inj, BitVec.toNat_ofNat]
    have hmax : (-1#11 : BitVec 11).toNat = 2047 := rfl
    omega
  · exact isFinite_packComponents (by decide)

/-- The exponent field leaves no room for more. -/
theorem exponent_le {x : Float.Model} {s : Sign} {m : Nat} {e : Int} {hpos : 0 < m}
    (hx : x.unpack = .finite s m e hpos) : e ≤ 971 := by
  rw [Float.Model.unpack, UnpackedFloat.unpack] at hx
  have hlt := unpackExponent_lt x.toBits.toBitVec
  have hmax : (-1#11 : BitVec 11).toNat = 2047 := rfl
  split_ifs at hx with htop hinf hbottom hzero
  · obtain ⟨-, -, rfl⟩ := UnpackedFloat.finite.inj hx
    rw [hbottom]
    decide
  · obtain ⟨-, -, rfl⟩ := UnpackedFloat.finite.inj hx
    rw [← BitVec.toNat_inj, hmax] at htop
    show _ - ((1023 : Int) + 52) ≤ 971
    omega

theorem isFinite_neg (x : Float) : (-x).isFinite = x.isFinite := by
  show (Float.Model.pack x.toModel.unpack.neg).isFinite = x.toModel.unpack.isFinite
  cases hx : x.toModel.unpack with
  | notANumber => rfl
  | infinity s => cases s <;> rfl
  | zero s => cases s <;> rfl
  | finite s m e hpos => exact isFinite_pack hpos (exponent_le hx)

/-! ## Order -/

theorem lt_iff_unpack {x y : Float} : x < y ↔ x.toModel.unpack.lt y.toModel.unpack = true := by
  show decide (x.toModel < y.toModel) = true ↔ _
  rw [decide_eq_true_iff]
  rfl

theorem compare_swap (a b : UnpackedFloat) : b.compare a = (a.compare b).map Ordering.swap := by
  cases a with
  | notANumber => cases b <;> rfl
  | infinity s =>
    cases b with
    | infinity t => cases s <;> cases t <;> rfl
    | _ => cases s <;> rfl
  | zero s =>
    cases b with
    | infinity t => cases t <;> rfl
    | finite t => cases t <;> rfl
    | _ => rfl
  | finite s m e _ =>
    cases b with
    | notANumber => cases s <;> rfl
    | infinity t => cases s <;> cases t <;> rfl
    | zero => cases s <;> rfl
    | finite t m' e' _ =>
      have hswap : (compare e' e).then (compare m' m) = ((compare e e').then (compare m m')).swap := by
        rw [Ordering.swap_then, ← Std.OrientedOrd.eq_swap, ← Std.OrientedOrd.eq_swap]
      cases s with
      | positive =>
        cases t with
        | positive => exact congrArg some hswap
        | negative => rfl
      | negative =>
        cases t with
        | positive => rfl
        | negative => exact congrArg (fun o => some (Ordering.swap o)) hswap

theorem not_lt_of_le {x y : Float} (h : x ≤ y) : ¬ y < x := by
  have hle : x.toModel.unpack.le y.toModel.unpack = true := of_decide_eq_true h
  rw [lt_iff_unpack, UnpackedFloat.lt, compare_swap x.toModel.unpack]
  rw [UnpackedFloat.le] at hle
  cases hc : x.toModel.unpack.compare y.toModel.unpack with
  | none => exact Bool.false_ne_true
  | some o =>
    rw [hc] at hle
    cases o with
    | lt => exact Bool.false_ne_true
    | eq => exact Bool.false_ne_true
    | gt => cases hle

theorem le_of_lt {x y : Float} (h : x < y) : x ≤ y := by
  have hlt := lt_iff_unpack.mp h
  refine decide_eq_true (p := x.toModel.unpack.le y.toModel.unpack = true) ?_
  rw [UnpackedFloat.lt] at hlt
  rw [UnpackedFloat.le]
  cases hc : x.toModel.unpack.compare y.toModel.unpack with
  | none =>
    rw [hc] at hlt
    cases hlt
  | some o =>
    rw [hc] at hlt
    cases o with
    | lt => rfl
    | eq => cases hlt
    | gt => cases hlt

/-! ## Numbers that compare as equal -/

theorem le_iff_unpack {x y : Float} : x ≤ y ↔ x.toModel.unpack.le y.toModel.unpack = true := by
  show decide (x.toModel ≤ y.toModel) = true ↔ _
  rw [decide_eq_true_iff]
  rfl

/-- Two doubles of which neither is above the other have the same parts, or both are zero. -/
theorem unpack_eq_of_le_of_le {x y : Float} (h : x ≤ y) (h' : y ≤ x) :
    x.toModel.unpack = y.toModel.unpack ∨
      ∃ s t, x.toModel.unpack = .zero s ∧ y.toModel.unpack = .zero t := by
  rw [le_iff_unpack, UnpackedFloat.le] at h h'
  generalize x.toModel.unpack = a at *
  generalize y.toModel.unpack = b at *
  rw [compare_swap a b] at h'
  have heq : a.compare b = some .eq := by
    cases hc : a.compare b with
    | none =>
      rw [hc] at h
      cases h
    | some o =>
      rw [hc] at h h'
      cases o with
      | lt => cases h'
      | eq => rfl
      | gt => cases h
  have hparts : ∀ {e e' : Int} {m m' : Nat}, (compare e e').then (compare m m') = .eq → e = e' ∧ m = m' := by
    intro e e' m m' h
    rw [Ordering.then_eq_eq] at h
    exact ⟨Std.LawfulEqOrd.eq_of_compare h.1, Std.LawfulEqOrd.eq_of_compare h.2⟩
  cases a with
  | notANumber => cases heq
  | infinity s =>
    cases b with
    | infinity t =>
      cases s with
      | positive =>
        cases t with
        | positive => exact .inl rfl
        | negative => cases heq
      | negative =>
        cases t with
        | positive => cases heq
        | negative => exact .inl rfl
    | notANumber => cases heq
    | zero t => cases s <;> cases heq
    | finite t => cases s <;> cases heq
  | zero s =>
    cases b with
    | zero t => exact .inr ⟨s, t, rfl, rfl⟩
    | notANumber => cases heq
    | infinity t => cases t <;> cases heq
    | finite t => cases t <;> cases heq
  | finite s m e hm =>
    cases b with
    | notANumber => cases heq
    | infinity t => cases s <;> cases t <;> cases heq
    | zero t => cases s <;> cases heq
    | finite t m' e' hm' =>
      cases s with
      | positive =>
        cases t with
        | positive =>
          obtain ⟨rfl, rfl⟩ := hparts (Option.some.inj heq)
          exact .inl rfl
        | negative => cases heq
      | negative =>
        cases t with
        | positive => cases heq
        | negative =>
          rw [UnpackedFloat.compare, Option.some.injEq, Ordering.swap_eq_eq] at heq
          obtain ⟨rfl, rfl⟩ := hparts heq
          exact .inl rfl

end Backtest.Decimal
