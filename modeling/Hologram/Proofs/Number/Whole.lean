import Hologram.Number.Width
import Hologram.Proofs.Number.Missing

/-! Integers up to `2 ^ 53` are doubles, doubles that are integers compare as the integers do, and
the sign of an integer is the sign of its double. -/
namespace Hologram.Number
open Float.Model UnpackedFloat

theorem log2_mul_pow {m : Nat} (hm : m ≠ 0) (k : Nat) : (m * 2 ^ k).log2 = m.log2 + k := by
  have hpos : 0 < 2 ^ k := Nat.two_pow_pos k
  refine (Nat.log2_eq_iff (Nat.mul_ne_zero hm (by omega))).mpr ⟨?_, ?_⟩
  · rw [Nat.pow_add]
    exact Nat.mul_le_mul_right _ (Nat.log2_self_le hm)
  · rw [Nat.add_right_comm, Nat.pow_add]
    exact Nat.mul_lt_mul_of_pos_right Nat.lt_log2_self hpos

theorem log2_mul_two_pow {m : Nat} (hlow : 2 ^ 52 ≤ m) (hhigh : m < 2 ^ 53) (j : Nat) :
    (m * 2 ^ j).log2 = 52 + j := by
  rw [log2_mul_pow (by omega), (Nat.log2_eq_iff (by omega)).mpr ⟨hlow, hhigh⟩]

/-- Numbers compare alike in all units of powers of two. -/
theorem mul_two_pow_le {M N k l s j : Nat} (h : M * 2 ^ k ≤ N * 2 ^ l) (hsum : s + l = k + j) :
    M * 2 ^ s ≤ N * 2 ^ j := by
  refine Nat.le_of_mul_le_mul_right ?_ (Nat.two_pow_pos l)
  calc M * 2 ^ s * 2 ^ l = M * 2 ^ k * 2 ^ j := by
        rw [Nat.mul_assoc, ← Nat.pow_add, hsum, Nat.pow_add, Nat.mul_assoc]
    _ ≤ N * 2 ^ l * 2 ^ j := Nat.mul_le_mul_right _ h
    _ = N * 2 ^ j * 2 ^ l := Nat.mul_right_comm ..

theorem mul_two_pow_eq {M N k l s j : Nat} (h : M * 2 ^ k = N * 2 ^ l) (hsum : s + l = k + j) :
    M * 2 ^ s = N * 2 ^ j :=
  Nat.le_antisymm (mul_two_pow_le (Nat.le_of_eq h) hsum)
    (mul_two_pow_le (Nat.le_of_eq h.symm) (by omega))

/-- Digits that are all zero are shifted out without a trace. -/
theorem shiftRight_mul_two_pow (m j : Nat) :
    (⟨m * 2 ^ j, false, false⟩ : ExtendedMantissa) >>> j = ⟨m, false, false⟩ := by
  change Nat.repeat ExtendedMantissa.shiftRightOne j _ = _
  induction j generalizing m with
  | zero => simp [Nat.repeat]
  | succ j ih =>
    rw [Nat.repeat, Nat.pow_succ', ← Nat.mul_assoc, ih]
    simp [ExtendedMantissa.shiftRightOne]

/-- What fits into 53 bits is not rounded. -/
theorem roundWithAccuracy_mul_two_pow (s : Sign) {m : Nat} {e : Int} (hlow : 2 ^ 52 ≤ m)
    (hhigh : m < 2 ^ 53) (he : -1074 ≤ e) (j : Nat) :
    roundWithAccuracy Format.binary64 s (m * 2 ^ j) (e - j) .exact =
      .finite s m e (by omega) := by
  have htarget (j : Nat) :
      Format.binary64.targetExponent (totalExponent (m * 2 ^ j) (e - j)) = e := by
    simp only [Format.targetExponent, totalExponent, log2_mul_two_pow hlow hhigh,
      Format.mantissaBits, Format.minExponent]
    omega
  have hshift (j : Nat) : shiftToTargetExponent Format.binary64 (m * 2 ^ j) (e - j) .exact =
      (⟨m, false, false⟩, e) := by
    simp only [shiftToTargetExponent, htarget, shiftToExponent,
      ExtendedMantissa.ofMantissaAndAccuracy]
    rw [show (e - (e - j)).toNat = j by omega, shiftRight_mul_two_pow,
      show e - (j : Int) + j = e by omega]
  have hrounded : (⟨m, false, false⟩ : ExtendedMantissa).roundedMantissa = m := rfl
  have hagain : shiftToTargetExponent Format.binary64 m e .exact = (⟨m, false, false⟩, e) := by
    simpa using hshift 0
  simp only [roundWithAccuracy, hshift, hrounded, hagain]
  rw [dif_neg (by omega)]

/-- A normal number is found again in its bits. -/
theorem unpack_pack_finite (s : Sign) {m : Nat} {e : Int} (hlow : 2 ^ 52 ≤ m) (hhigh : m < 2 ^ 53)
    (hmin : -1074 ≤ e) (hmax : e ≤ 971) (h : 0 < m) :
    (Float.Model.pack (.finite s m e h)).unpack = .finite s m e h := by
  obtain ⟨b, hb⟩ : ∃ b : Nat, e = b - 1075 := ⟨(e + 1075).toNat, by omega⟩
  subst hb
  have hpacked : UnpackedFloat.pack Format.binary64 (.finite s m ((b : Int) - 1075) h) =
      packComponents Format.binary64 s (BitVec.ofNat _ b) (BitVec.ofNat _ m) := by
    have hlog : m.log2 = 52 := by simpa using log2_mul_two_pow hlow hhigh 0
    have hbiased : ((b : Int) - 1075 + Format.binary64.exponentBias +
        Format.binary64.mantissaBitsWithoutImplicit).toNat = b := by
      change ((b : Int) - 1075 + 1023 + 52).toNat = b
      omega
    simp only [UnpackedFloat.pack, hbiased, hlog]
    rw [if_neg (show ¬ 2 ^ 11 ≤ b + 1 by omega),
      if_pos (show 52 + 1 = Format.binary64.mantissaBits from rfl)]
  have hexponent : (BitVec.ofNat 11 b).toNat = b := by
    rw [BitVec.toNat_ofNat, Nat.mod_eq_of_lt (by omega)]
  have hmantissa : (1#1 ++ BitVec.ofNat 52 m).toNat = m := by
    rw [BitVec.toNat_append, BitVec.toNat_ofNat, ← Nat.shiftLeft_add_eq_or_of_lt (by omega)]
    simp only [BitVec.toNat_ofNat, Nat.shiftLeft_eq]
    omega
  change UnpackedFloat.unpack Format.binary64 (UInt64.ofBitVec _).toBitVec = _
  rw [UInt64.toBitVec_ofBitVec, hpacked]
  unfold UnpackedFloat.unpack
  simp only [unpackMantissa_packComponents, unpackExponent_packComponents,
    unpackSign_packComponents]
  rw [if_neg, if_neg]
  · congr 1
    · exact Sign.ofBitVec_toBitVec s
    · rw [hexponent]
      change (b : Int) - (1023 + 52) = _
      omega
  · exact fun hzero => by
      have := congrArg BitVec.toNat hzero
      rw [hexponent, BitVec.toNat_ofNat] at this
      omega
  · exact fun hones => by
      have := congrArg BitVec.toNat hones
      rw [hexponent] at this
      change b = 2047 at this
      omega

/-- The parts of a double that is an integer. Every mantissa has all its 53 bits, and it counts how
many units of `2 ^ (k - 52)` there are. -/
inductive Stands : UnpackedFloat → Int → Prop
  | zero (s : Sign) : Stands (.zero s) 0
  | finite (s : Sign) {m k n : Nat} (h : 0 < m) (hlow : 2 ^ 52 ≤ m) (hhigh : m < 2 ^ 53)
      (hk : k ≤ 53) (hn : m * 2 ^ k = n * 2 ^ 52) :
      Stands (.finite s m ((k : Int) - 52) h) (s.apply n)

namespace Stands

variable {u v : UnpackedFloat} {a b : Int}

theorem pack (h : Stands u a) : Stands (Float.Model.pack u).unpack a := by
  cases h with
  | zero s => cases s <;> exact .zero _
  | finite s h hlow hhigh hk hn =>
    rw [unpack_pack_finite s hlow hhigh (by omega) (by omega) h]
    exact .finite s h hlow hhigh hk hn

theorem neg (h : Stands u a) : Stands (UnpackedFloat.neg u) (-a) := by
  cases h with
  | zero s => exact .zero _
  | @finite s m k n h hlow hhigh hk hn =>
    have hneg : -s.apply n = (-s).apply n := by
      cases s
      · exact Int.neg_neg _
      · rfl
    rw [hneg]
    exact .finite _ h hlow hhigh hk hn

theorem mul_one (h : Stands u a) : Stands
    (UnpackedFloat.mul Format.binary64 u (.finite .positive (2 ^ 52) (-52) (by decide))) a := by
  cases h with
  | zero s => exact .zero _
  | @finite s m k n h hlow hhigh hk hn =>
    have hs : s * .positive = s := by cases s <;> rfl
    have hround := roundWithAccuracy_mul_two_pow s (e := (k : Int) - 52) hlow hhigh (by omega) 52
    change Stands (roundWithAccuracy _ (s * .positive) (m * 2 ^ 52)
      ((k : Int) - 52 - (52 : Nat)) .exact) _
    rw [hs, hround]
    exact .finite s h hlow hhigh hk hn

/-- Below `2 ^ 53` an integer needs no rounding. -/
theorem ofNat {n : Nat} (hn : n < 2 ^ 53) : Stands (UnpackedFloat.ofNat Format.binary64 n) n := by
  unfold UnpackedFloat.ofNat UnpackedFloat.ofInt UnpackedFloat.normalize
  rcases Nat.eq_zero_or_pos n with rfl | hpos
  · exact .zero _
  have hlog : n.log2 < 53 := (Nat.log2_lt (by omega)).mpr hn
  have hlow := Nat.log2_self_le (n := n) (by omega)
  have hhigh := Nat.lt_log2_self (n := n)
  obtain ⟨j, hj⟩ : ∃ j, n.log2 + j = 52 := ⟨52 - n.log2, by omega⟩
  have htarget : Format.binary64.targetExponent (totalExponent n 0) = -(j : Int) := by
    simp only [Format.targetExponent, totalExponent, Format.mantissaBits, Format.minExponent]
    omega
  have hl : 2 ^ 52 ≤ n * 2 ^ j := by
    rw [← hj, Nat.pow_add]
    exact Nat.mul_le_mul_right _ hlow
  have hh : n * 2 ^ j < 2 ^ 53 := by
    rw [show 53 = n.log2 + 1 + j by omega, Nat.pow_add]
    exact Nat.mul_lt_mul_of_pos_right hhigh (Nat.two_pow_pos j)
  have hround := roundWithAccuracy_mul_two_pow .positive (e := -(j : Int)) hl hh (by omega) 0
  rw [Int.compare_eq_gt.mpr (by omega)]
  simp only [UnpackedFloat.round, decreaseExponent, Int.toNat_natCast, htarget, Nat.shiftLeft_eq]
  rw [show (0 - -(j : Int)).toNat = j by omega, show 0 - (j : Int) = -(j : Int) by omega]
  simp only [Nat.pow_zero, Nat.mul_one, Int.natCast_zero, Int.sub_zero] at hround
  have hk : -(j : Int) = ((n.log2 : Nat) : Int) - 52 := by omega
  rw [hround]
  simp only [hk]
  refine .finite .positive _ hl hh (by omega) ?_
  rw [Nat.mul_assoc, ← Nat.pow_add, Nat.add_comm, hj]

end Stands

theorem stands_ofNat {n : Nat} (hn : n ≤ 2 ^ 53) : Stands (Float.ofNat n).toModel.unpack n := by
  rcases Nat.lt_or_eq_of_le hn with hlt | rfl
  · change Stands (Float.ofScientific n false 0).toModel.unpack n
    unfold Float.ofScientific
    rw [dif_pos ⟨hlt, Nat.zero_le _⟩]
    simp only [Float.exactlyRepresentablePowersOfTen, List.getElem_toArray, List.getElem_cons_zero]
    refine Stands.pack ?_
    rw [unpack_one]
    refine Stands.mul_one (Stands.pack ?_)
    have hword : n.toUInt64.toNat = n := UInt64.toNat_ofNat_of_lt' (Nat.lt_trans hlt (by decide))
    change Stands (UnpackedFloat.ofNat Format.binary64 n.toUInt64.toNat) n
    rw [hword]
    exact Stands.ofNat hlt
  · -- `2 ^ 53` itself is not read on the short path.
    have hbits : Float.ofNat (2 ^ 53) = Float.ofBits 0x4340000000000000 := by decide +kernel
    have hparts : (Float.ofBits 0x4340000000000000).toModel.unpack =
        .finite .positive (2 ^ 52) ((53 : Nat) - 52) (by decide) := by rfl
    rw [hbits, hparts]
    exact .finite .positive _ (by decide) (by decide) (by decide) (by decide)

/-- Every integer up to `2 ^ 53` is a double. -/
theorem stands_ofInt {z : Int} (hz : z.natAbs ≤ 2 ^ 53) :
    Stands (Float.ofInt z).toModel.unpack z := by
  cases z with
  | ofNat n => exact stands_ofNat hz
  | negSucc n => exact ((stands_ofNat hz).neg).pack

/-- Mantissas of 53 bits leave it to the exponents which number is greater. -/
theorem compare_mul_two_pow {m m' k k' : Nat} (hlow : 2 ^ 52 ≤ m) (hhigh : m < 2 ^ 53)
    (hlow' : 2 ^ 52 ≤ m') (hhigh' : m' < 2 ^ 53) :
    (compare ((k : Int) - 52) ((k' : Int) - 52)).then (compare m m') =
      compare (m * 2 ^ k) (m' * 2 ^ k') := by
  have hbelow {m m' k k' : Nat} (hhigh : m < 2 ^ 53) (hlow' : 2 ^ 52 ≤ m') (h : k < k') :
      m * 2 ^ k < m' * 2 ^ k' := by
    obtain ⟨d, rfl⟩ := Nat.exists_eq_add_of_lt h
    calc m * 2 ^ k < 2 ^ 53 * 2 ^ k := Nat.mul_lt_mul_of_pos_right hhigh (Nat.two_pow_pos k)
      _ = 2 ^ 52 * 2 ^ (k + 1) := by rw [← Nat.pow_add, ← Nat.pow_add]; congr 1; omega
      _ ≤ m' * 2 ^ (k + d + 1) :=
        Nat.mul_le_mul hlow' (Nat.pow_le_pow_right (by decide) (by omega))
  rcases Nat.lt_trichotomy k k' with h | rfl | h
  · rw [Int.compare_eq_lt.mpr (by omega), Nat.compare_eq_lt.mpr (hbelow hhigh hlow' h)]
    rfl
  · rw [Int.compare_eq_eq.mpr rfl]
    have hpos : 0 < 2 ^ k := Nat.two_pow_pos k
    rcases Nat.lt_trichotomy m m' with h | rfl | h
    · rw [Nat.compare_eq_lt.mpr h,
        Nat.compare_eq_lt.mpr (Nat.mul_lt_mul_of_pos_right h hpos)]
      rfl
    · rw [Nat.compare_eq_eq.mpr rfl, Nat.compare_eq_eq.mpr rfl]
      rfl
    · rw [Nat.compare_eq_gt.mpr h,
        Nat.compare_eq_gt.mpr (Nat.mul_lt_mul_of_pos_right h hpos)]
      rfl
  · rw [Int.compare_eq_gt.mpr (by omega), Nat.compare_eq_gt.mpr (hbelow hhigh' hlow h)]
    rfl

/-- Doubles that are integers compare as the integers do. -/
theorem Stands.compare {u v : UnpackedFloat} {a b : Int} (hu : Stands u a) (hv : Stands v b) :
    u.compare v = some (Ord.compare a b) := by
  have hpos {m k n : Nat} (h : 0 < m) (hn : m * 2 ^ k = n * 2 ^ 52) : 0 < n := by
    have : 0 < m * 2 ^ k := Nat.mul_pos h (Nat.two_pow_pos k)
    omega
  have hscale {m k n m' k' n' : Nat} (hn : m * 2 ^ k = n * 2 ^ 52)
      (hn' : m' * 2 ^ k' = n' * 2 ^ 52) :
      Ord.compare (m * 2 ^ k) (m' * 2 ^ k') = Ord.compare (n : Int) n' := by
    rw [hn, hn', Nat.compare_eq_ite_lt, Int.compare_eq_ite_lt]
    simp
  cases hu with
  | zero s => cases hv with
    | zero s' => rfl
    | @finite s' m' k' n' h' hlow' hhigh' hk' hn' =>
      have := hpos h' hn'
      cases s'
      · exact congrArg some (Int.compare_eq_gt.mpr (by simp only [Sign.apply]; omega)).symm
      · exact congrArg some (Int.compare_eq_lt.mpr (by simp only [Sign.apply]; omega)).symm
  | @finite s m k n h hlow hhigh hk hn =>
    have hn₀ := hpos h hn
    cases hv with
    | zero s' =>
      cases s
      · exact congrArg some (Int.compare_eq_lt.mpr (by simp only [Sign.apply]; omega)).symm
      · exact congrArg some (Int.compare_eq_gt.mpr (by simp only [Sign.apply]; omega)).symm
    | @finite s' m' k' n' h' hlow' hhigh' hk' hn' =>
      have hn₀' := hpos h' hn'
      have hparts := (compare_mul_two_pow hlow hhigh hlow' hhigh').trans (hscale hn hn')
      cases s <;> cases s'
      · change some ((Ordering.then _ _).swap) = some (Ord.compare (-(n : Int)) (-(n' : Int)))
        rw [hparts, Int.compare_swap, Int.compare_eq_ite_lt, Int.compare_eq_ite_lt]
        simp
      · exact congrArg some (Int.compare_eq_lt.mpr (by simp only [Sign.apply]; omega)).symm
      · exact congrArg some (Int.compare_eq_gt.mpr (by simp only [Sign.apply]; omega)).symm
      · exact congrArg some hparts

/-- Parts that compare as equal to those of a number that is not zero are the same parts. -/
theorem eq_finite_of_compare {u : UnpackedFloat} {s : Sign} {m : Nat} {e : Int} {hm : 0 < m}
    (h : u.compare (.finite s m e hm) = some .eq) : u = .finite s m e hm := by
  cases u with
  | zero s' => cases s <;> simp [UnpackedFloat.compare] at h
  | infinity s' => cases s' <;> simp [UnpackedFloat.compare] at h
  | notANumber => simp [UnpackedFloat.compare] at h
  | finite s' m' e' h' =>
    obtain ⟨rfl, rfl, rfl⟩ : s' = s ∧ m' = m ∧ e' = e := by
      cases s <;> cases s' <;>
        simp [UnpackedFloat.compare, Ordering.then_eq_eq] at h ⊢ <;> omega
    rfl

/-- A double that equals one that is an integer is that integer too. -/
theorem Stands.of_compare {u v : UnpackedFloat} {a : Int} (hv : Stands v a)
    (h : u.compare v = some .eq) : Stands u a := by
  cases hv with
  | zero s =>
    cases u with
    | zero s' => exact .zero s'
    | finite s' => cases s' <;> simp [UnpackedFloat.compare] at h
    | infinity s' => cases s' <;> simp [UnpackedFloat.compare] at h
    | notANumber => simp [UnpackedFloat.compare] at h
  | finite s hm hlow hhigh hk hn =>
    rw [eq_finite_of_compare h]
    exact .finite s hm hlow hhigh hk hn

/-- The parts of an integer that is not zero are determined by it. -/
theorem Stands.eq {u v : UnpackedFloat} {a : Int} (hu : Stands u a) (hv : Stands v a)
    (ha : a ≠ 0) : u = v := by
  have hequal : u.compare v = some .eq := by
    rw [hu.compare hv, Int.compare_eq_eq.mpr rfl]
  cases hv with
  | zero => contradiction
  | finite => exact eq_finite_of_compare hequal

def IsInt (x : Float) (a : Int) : Prop :=
  Stands x.toModel.unpack a

variable {x y : Float} {a b : Int}

theorem isInt_ofInt (h : a.natAbs ≤ 2 ^ 53) : IsInt (Float.ofInt a) a :=
  stands_ofInt h

theorem IsInt.beq (hx : IsInt x a) (hy : IsInt y b) : (x == y) = decide (a = b) := by
  change (x.toModel.unpack.compare y.toModel.unpack == some .eq) = decide (a = b)
  rw [Stands.compare hx hy, Int.compare_eq_ite_lt]
  split_ifs <;> simp <;> omega

theorem lt_iff_compare :
    x < y ↔ (x.toModel.unpack.compare y.toModel.unpack == some .lt) = true :=
  decide_eq_true_iff

theorem IsInt.lt (hx : IsInt x a) (hy : IsInt y b) : x < y ↔ a < b := by
  rw [lt_iff_compare, Stands.compare hx hy, Int.compare_eq_ite_lt]
  split_ifs <;> simp <;> omega

theorem IsInt.le (hx : IsInt x a) (hy : IsInt y b) : x ≤ y ↔ a ≤ b := by
  have hle : x ≤ y ↔ (x.toModel.unpack.compare y.toModel.unpack).any (·.isLE) = true :=
    decide_eq_true_iff
  rw [hle, Stands.compare hx hy, Int.compare_eq_ite_lt]
  split_ifs <;> simp <;> omega

theorem IsInt.of_beq (hy : IsInt y a) (h : (x == y) = true) : IsInt x a :=
  Stands.of_compare hy (eq_of_beq h)

/-- The opposite of what bits stand for is what the bits with the other sign stand for. -/
theorem neg_unpack {spec : Format} (b : BitVec spec.numBits) :
    (UnpackedFloat.unpack spec b).neg = UnpackedFloat.unpack spec
      (packComponents spec (-Sign.ofBitVec (unpackSign b)) (unpackExponent b)
        (unpackMantissa b)) := by
  unfold UnpackedFloat.unpack
  simp only [unpackMantissa_packComponents, unpackExponent_packComponents,
    unpackSign_packComponents, Sign.ofBitVec_toBitVec]
  split_ifs <;> rfl

/-- What was unpacked is found again in its bits, with the other sign as well. -/
theorem unpack_pack_neg {spec : Format} (hspec : 2 ≤ spec.exponentBits)
    (b : BitVec spec.numBits) : UnpackedFloat.unpack spec
      (UnpackedFloat.pack spec (UnpackedFloat.unpack spec b).neg) =
        (UnpackedFloat.unpack spec b).neg := by
  rw [neg_unpack, pack_unpack _ hspec]
  split_ifs with hnan
  · rw [isNaNBits, decide_eq_true_eq] at hnan
    rw [unpack_packedNaN, UnpackedFloat.unpack, if_pos hnan.1, if_neg hnan.2]
  · rfl

theorem pack_unpack_toModel (x : Float.Model) : Float.Model.pack x.unpack = x := by
  obtain ⟨⟨bits⟩, hvalid⟩ := x
  have hbits : UnpackedFloat.pack Format.binary64 (UnpackedFloat.unpack Format.binary64 bits) =
      bits := pack_unpack_of_valid hvalid
  simp only [Float.Model.pack, Float.Model.unpack, hbits]

protected theorem neg_neg (x : Float) : -(-x) = x := by
  have hneg (u : UnpackedFloat) : u.neg.neg = u := by
    cases u with
    | notANumber => rfl
    | infinity s | zero s | finite s => cases s <;> rfl
  have hagain : (Float.Model.pack x.toModel.unpack.neg).unpack = x.toModel.unpack.neg :=
    @unpack_pack_neg Format.binary64 (by decide) x.toModel.toBits.toBitVec
  change Float.ofModel (Float.Model.pack (Float.Model.pack x.toModel.unpack.neg).unpack.neg) = x
  rw [hagain, hneg, pack_unpack_toModel]

theorem IsInt.neg (h : IsInt x a) : IsInt (-x) (-a) :=
  (Stands.neg h).pack

theorem IsInt.abs (h : IsInt x a) : IsInt x.abs a.natAbs := by
  refine Stands.pack (u := x.toModel.unpack.abs) ?_
  unfold IsInt at h
  generalize x.toModel.unpack = u at h ⊢
  cases h with
  | zero => exact .zero _
  | @finite s m k n hm hlow hhigh hk hn =>
    have habs : (s.apply n).natAbs = n := by
      cases s
      · exact Int.natAbs_neg n
      · rfl
    rw [habs]
    exact .finite .positive hm hlow hhigh hk hn

/-- There is only one double for an integer that is not zero. -/
theorem IsInt.eq (hx : IsInt x a) (hy : IsInt y a) (ha : a ≠ 0) : x = y := by
  have hparts : x.toModel.unpack = y.toModel.unpack := Stands.eq hx hy ha
  have hmodel : x.toModel = y.toModel := by
    rw [← pack_unpack_toModel x.toModel, hparts, pack_unpack_toModel]
  exact congrArg Float.ofModel hmodel

/-- The sign of an integer that is not zero is the sign of its double. -/
theorem ofInt_neg {n : Int} (hn : n ≠ 0) : Float.ofInt (-n) = -Float.ofInt n := by
  cases n with
  | ofNat n =>
    cases n with
    | zero => contradiction
    | succ n => rfl
  | negSucc n => exact (Number.neg_neg _).symm

/-- An integer that is small enough for a double to count to it has 64 bits, and so has its
negative. -/
theorem Width.between_of_natAbs_le {n : Int} (h : n.natAbs ≤ 2 ^ 53) :
    bits64.least < n ∧ n ≤ bits64.greatest := by
  simp only [least, greatest, half, count]
  omega

end Hologram.Number
