import Hologram.Number.Binary
import Mathlib

/-! The double that is no number: there is only one of it, and no integer is read as it. -/
namespace Hologram.Number
open Float.Model UnpackedFloat

/-- Only one double is no number. -/
theorem eq_missing_of_isNaN {x : Float} (h : x.isNaN = true) : x = missing := by
  have hmissing : missing.isNaN = true := by decide +kernel
  rw [Float.isNaN_eq_decide_eq_nan, decide_eq_true_eq] at h hmissing
  rw [h, hmissing]

/-- A number with the highest exponent is packed as an infinity, which has no mantissa. -/
theorem unpackMantissa_pack (spec : Format) {u : UnpackedFloat} (h : u.isNaN = false)
    (he : unpackExponent (UnpackedFloat.pack spec u) = -1#_) :
    unpackMantissa (UnpackedFloat.pack spec u) = 0#_ := by
  revert he
  fun_cases UnpackedFloat.pack spec u with
  | case1 => contradiction
  | case2 s => simp [packedInfinity]
  | case3 s => simp [packedZero]
  | case4 s m e hm biased hlarge => simp [packedInfinity]
  | case5 s m e hm bits biased hsmall hnormal =>
    intro he
    rw [unpackExponent_packComponents] at he
    have hb := congrArg BitVec.toNat he
    rw [BitVec.toNat_ofNat, Nat.mod_eq_of_lt (by omega), BitVec.neg_one_eq_allOnes,
      BitVec.toNat_allOnes] at hb
    omega
  | case6 s m e hm bits biased hsmall hsubnormal =>
    intro he
    rw [unpackExponent_packComponents] at he
    have hb := congrArg BitVec.toNat he
    rw [BitVec.neg_one_eq_allOnes, BitVec.toNat_allOnes] at hb
    have hbits := spec.he
    have : 1 < 2 ^ spec.exponentBits := Nat.one_lt_two_pow (by omega)
    simp at hb
    omega

/-- What is packed as a number is unpacked as one. -/
theorem isNaN_unpack_pack {u : UnpackedFloat} (h : u.isNaN = false) :
    (Float.Model.pack u).unpack.isNaN = false := by
  have hm := unpackMantissa_pack Format.binary64 h
  change (UnpackedFloat.unpack Format.binary64
    (UInt64.ofBitVec (UnpackedFloat.pack Format.binary64 u)).toBitVec).isNaN = false
  rw [UInt64.toBitVec_ofBitVec]
  unfold UnpackedFloat.unpack
  dsimp only
  split_ifs with he hz <;> first | rfl | exact absurd (hm he) hz

theorem isNaN_roundWithAccuracy (spec : Format) (s : Sign) (m : Nat) (e : Int) (a : Accuracy) :
    (roundWithAccuracy spec s m e a).isNaN = false := by
  unfold roundWithAccuracy
  dsimp only
  split_ifs <;> rfl

/-- A number times a finite one that is not zero is a number. -/
theorem isNaN_mul (spec : Format) {u : UnpackedFloat} (hu : u.isNaN = false) (s : Sign) (m : Nat)
    (e : Int) (hm : 0 < m) : (UnpackedFloat.mul spec u (.finite s m e hm)).isNaN = false := by
  cases u with
  | notANumber => contradiction
  | finite => exact isNaN_roundWithAccuracy ..
  | _ => rfl

/-- A number divided by a finite one that is not zero is a number. -/
theorem isNaN_div (spec : Format) {u : UnpackedFloat} (hu : u.isNaN = false) (s : Sign) (m : Nat)
    (e : Int) (hm : 0 < m) : (UnpackedFloat.div spec u (.finite s m e hm)).isNaN = false := by
  cases u with
  | notANumber => contradiction
  | finite => exact isNaN_roundWithAccuracy ..
  | _ => rfl

theorem isNaN_neg {u : UnpackedFloat} (h : u.isNaN = false) :
    (UnpackedFloat.neg u).isNaN = false := by
  cases u with
  | notANumber => contradiction
  | _ => rfl

theorem isNaN_unpacked_ofNat (spec : Format) (n : Nat) :
    (UnpackedFloat.ofNat spec n).isNaN = false := by
  unfold UnpackedFloat.ofNat UnpackedFloat.ofInt UnpackedFloat.normalize UnpackedFloat.round
  split <;> first | rfl | exact isNaN_roundWithAccuracy ..

theorem isNaN_unpacked_ofScientific (spec : Format) (m : Nat) :
    (UnpackedFloat.ofScientific spec m 0).isNaN = false := by
  unfold UnpackedFloat.ofScientific
  split_ifs with hm hlarge hsmall hneg
  · rfl
  · rfl
  · rfl
  · exact isNaN_mul _ rfl ..
  · exact absurd (Int.le_refl 0) hneg

theorem unpack_one : (Float.ofBits 0x3FF0000000000000).toModel.unpack =
    .finite .positive (2 ^ 52) (-52) (by decide) := by rfl

theorem isNaN_ofNat (n : Nat) : (Float.ofNat n).isNaN = false := by
  change (Float.ofScientific n false 0).isNaN = false
  unfold Float.ofScientific
  split
  · -- Below `2 ^ 53` the double is the integer times the zeroth power of ten.
    refine isNaN_unpack_pack ?_
    simp only [Float.exactlyRepresentablePowersOfTen, List.getElem_toArray, List.getElem_cons_zero]
    rw [unpack_one]
    exact isNaN_mul _ (isNaN_unpack_pack (isNaN_unpacked_ofNat _ _)) ..
  · exact isNaN_unpack_pack (isNaN_unpacked_ofScientific _ _)

/-- Every integer is read as a number. -/
theorem isNaN_ofInt (n : Int) : (Float.ofInt n).isNaN = false := by
  cases n with
  | ofNat n => exact isNaN_ofNat n
  | negSucc n => exact isNaN_unpack_pack (isNaN_neg (isNaN_ofNat _))

end Hologram.Number
