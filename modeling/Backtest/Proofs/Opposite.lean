import Backtest.Proofs.Rational

/-!
# Doubles of opposite signs

Arithmetic treats the two signs alike: a number is rounded as its negation is. So a difference taken the other
way round is the opposite number (`isOpposite_sub`), and it stays that when both are multiplied by one number
(`IsOpposite.mul`). Zeros are opposite to each other whatever their signs are, since a difference that vanishes
is a positive zero either way round.

Opposite doubles are finite together (`Opposite.isFinite_eq`) and stand for opposite rational numbers
(`Opposite.toRat_eq`).
-/

namespace Backtest.Decimal

open Float.Model
open Float.Model.UnpackedFloat

/-- Numbers of one magnitude and of opposite signs. The signs of zeros do not count. -/
def IsOpposite (a b : UnpackedFloat) : Prop :=
  b = a.neg ∨ ∃ s t, a = .zero s ∧ b = .zero t

section

variable {a b : UnpackedFloat}

theorem isOpposite_neg (a : UnpackedFloat) : IsOpposite a a.neg := .inl rfl

theorem isOpposite_zero (s t : Sign) : IsOpposite (.zero s) (.zero t) := .inr ⟨s, t, rfl, rfl⟩

/-! ## Rounding -/

theorem roundWithAccuracy_neg (spec : Format) (s : Sign) (m : Nat) (e : Int) (accuracy : Accuracy) :
    roundWithAccuracy spec (-s) m e accuracy = (roundWithAccuracy spec s m e accuracy).neg := by
  simp only [roundWithAccuracy]
  split_ifs <;> rfl

theorem round_neg (spec : Format) (s : Sign) (m : Nat) (e : Int) :
    UnpackedFloat.round spec (-s) m e = (UnpackedFloat.round spec s m e).neg :=
  roundWithAccuracy_neg spec s _ _ .exact

theorem isOpposite_normalize (spec : Format) (n e : Int) (s : Sign) :
    IsOpposite (normalize spec n e s) (normalize spec (-n) e s) := by
  rcases lt_trichotomy n 0 with hlt | rfl | hgt
  · have hneg : 0 < -n := neg_pos.mpr hlt
    rw [UnpackedFloat.normalize, UnpackedFloat.normalize, compare_lt_iff_lt.mpr hlt, compare_gt_iff_gt.mpr hneg]
    exact .inl (round_neg spec .negative _ e)
  · exact isOpposite_zero s s
  · have hneg : -n < 0 := neg_lt_zero.mpr hgt
    rw [UnpackedFloat.normalize, UnpackedFloat.normalize, compare_gt_iff_gt.mpr hgt, compare_lt_iff_lt.mpr hneg,
      neg_neg]
    exact .inl (round_neg spec .positive _ e)

/-! ## Differences and products -/

/-- A difference taken the other way round. -/
theorem isOpposite_sub (spec : Format) (a b : UnpackedFloat) : IsOpposite (a.sub spec b) (b.sub spec a) := by
  cases a with
  | notANumber => cases b <;> exact isOpposite_neg .notANumber
  | infinity s =>
    cases b with
    | infinity t => cases s <;> cases t <;> exact isOpposite_neg _
    | notANumber => exact isOpposite_neg .notANumber
    | zero t => exact isOpposite_neg (.infinity s)
    | finite t m' e' hm' => exact isOpposite_neg (.infinity s)
  | zero s =>
    cases b with
    | notANumber => exact isOpposite_neg .notANumber
    | infinity t => cases t <;> exact isOpposite_neg _
    | zero t => cases s <;> cases t <;> exact isOpposite_zero _ _
    | finite t m' e' hm' => cases t <;> exact isOpposite_neg _
  | finite s m e hm =>
    cases b with
    | notANumber => exact isOpposite_neg .notANumber
    | infinity t => cases t <;> exact isOpposite_neg _
    | zero t => exact isOpposite_neg (.finite s m e hm)
    | finite t m' e' hm' =>
      simp only [UnpackedFloat.sub, min_comm e' e]
      rw [← neg_sub (s.apply _) (t.apply _)]
      exact isOpposite_normalize spec _ _ .positive

theorem mul_neg_left (spec : Format) (a c : UnpackedFloat) : a.neg.mul spec c = (a.mul spec c).neg := by
  have hsign : ∀ s t : Sign, -s * t = -(s * t) := by
    intro s t
    cases s <;> cases t <;> rfl
  cases a with
  | notANumber => cases c <;> rfl
  | infinity s => cases c <;> simp only [UnpackedFloat.neg, UnpackedFloat.mul, hsign]
  | zero s => cases c <;> simp only [UnpackedFloat.neg, UnpackedFloat.mul, hsign]
  | finite s m e hm =>
    cases c with
    | finite t m' e' hm' => simp only [UnpackedFloat.neg, UnpackedFloat.mul, hsign, roundWithAccuracy_neg]
    | _ => simp only [UnpackedFloat.neg, UnpackedFloat.mul, hsign]

theorem IsOpposite.mul (h : IsOpposite a b) (spec : Format) (c : UnpackedFloat) :
    IsOpposite (a.mul spec c) (b.mul spec c) := by
  rcases h with rfl | ⟨s, t, rfl, rfl⟩
  · exact .inl (mul_neg_left spec a c)
  · cases c with
    | notANumber => exact isOpposite_neg .notANumber
    | infinity u => exact isOpposite_neg .notANumber
    | zero u => exact isOpposite_zero _ _
    | finite u m e hm => exact isOpposite_zero _ _

/-! ## Packing -/

theorem unpack_packComponents_neg (s : Sign) (e : BitVec 11) (m : BitVec 52) :
    UnpackedFloat.unpack Format.binary64 (packComponents Format.binary64 (-s) e m) =
      (UnpackedFloat.unpack Format.binary64 (packComponents Format.binary64 s e m)).neg := by
  simp only [UnpackedFloat.unpack, unpackExponent_packComponents, unpackMantissa_packComponents,
    unpackSign_packComponents, ofBitVec_toBitVec]
  split_ifs <;> rfl

theorem unpack_pack_neg (a : UnpackedFloat) :
    (Float.Model.pack a.neg).unpack = (Float.Model.pack a).unpack.neg := by
  cases a with
  | notANumber => rfl
  | infinity s => cases s <;> rfl
  | zero s => cases s <;> rfl
  | finite s m e hm =>
    show UnpackedFloat.unpack Format.binary64 (UnpackedFloat.pack Format.binary64 (.finite (-s) m e hm)) =
      (UnpackedFloat.unpack Format.binary64 (UnpackedFloat.pack Format.binary64 (.finite s m e hm))).neg
    simp only [UnpackedFloat.pack]
    split_ifs
    · cases s <;> rfl
    · exact unpack_packComponents_neg s _ _
    · exact unpack_packComponents_neg s _ _

theorem IsOpposite.pack (h : IsOpposite a b) :
    IsOpposite (Float.Model.pack a).unpack (Float.Model.pack b).unpack := by
  rcases h with rfl | ⟨s, t, rfl, rfl⟩
  · exact .inl (unpack_pack_neg a)
  · cases s <;> cases t <;> exact isOpposite_zero _ _

end

/-! ## Doubles -/

/-- Doubles of one magnitude and of opposite signs. The signs of zeros do not count. -/
def Opposite (x y : Float) : Prop := IsOpposite x.toModel.unpack y.toModel.unpack

theorem opposite_sub (x y : Float) : Opposite (x - y) (y - x) :=
  (isOpposite_sub .binary64 x.toModel.unpack y.toModel.unpack).pack

section

variable {x y : Float}

theorem Opposite.mul (h : Opposite x y) (z : Float) : Opposite (x * z) (y * z) :=
  (IsOpposite.mul h .binary64 z.toModel.unpack).pack

theorem Opposite.isFinite_eq (h : Opposite x y) : x.isFinite = y.isFinite := by
  show x.toModel.unpack.isFinite = y.toModel.unpack.isFinite
  rcases h with h | ⟨s, t, hx, hy⟩
  · rw [h]
    cases x.toModel.unpack <;> rfl
  · rw [hx, hy]
    rfl

theorem Opposite.toRat_eq (h : Opposite x y) : toRat y = -toRat x := by
  rw [toRat, toRat]
  rcases h with h | ⟨s, t, hx, hy⟩
  · rw [h]
    cases x.toModel.unpack with
    | finite s m e hm => exact signed_neg s _
    | _ => exact neg_zero.symm
  · rw [hx, hy]
    exact neg_zero.symm

end

end Backtest.Decimal
