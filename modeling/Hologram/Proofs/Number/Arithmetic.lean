import Hologram.Number.Binary
import Hologram.Proofs.Number.Whole

/-! Sums, differences and remainders of integers. As long as the result is an integer of 53 bits,
doubles compute what the integers do. -/
namespace Hologram.Number
open Float.Model UnpackedFloat

/-- A positive integer of 53 bits has a mantissa of 53 bits. -/
theorem exists_mantissa {n : Nat} (hpos : 0 < n) (hn : n ≤ 2 ^ 53) :
    ∃ m k, 2 ^ 52 ≤ m ∧ m < 2 ^ 53 ∧ k ≤ 53 ∧ m * 2 ^ k = n * 2 ^ 52 := by
  rcases Nat.lt_or_eq_of_le hn with hlt | rfl
  · have hlog : n.log2 < 53 := (Nat.log2_lt (by omega)).mpr hlt
    have hlow := Nat.log2_self_le (n := n) (by omega)
    have hhigh := Nat.lt_log2_self (n := n)
    obtain ⟨j, hj⟩ : ∃ j, n.log2 + j = 52 := ⟨52 - n.log2, by omega⟩
    refine ⟨n * 2 ^ j, n.log2, ?_, ?_, by omega, ?_⟩
    · rw [← hj, Nat.pow_add]
      exact Nat.mul_le_mul_right _ hlow
    · rw [show 53 = n.log2 + 1 + j by omega, Nat.pow_add]
      exact Nat.mul_lt_mul_of_pos_right hhigh (Nat.two_pow_pos j)
    · rw [Nat.mul_assoc, ← Nat.pow_add, Nat.add_comm, hj]
  · exact ⟨2 ^ 52, 53, by decide, by decide, by decide, by decide⟩

/-- Two mantissas of one number differ by a power of two. -/
theorem eq_mul_two_pow {M m k k' : Nat} (h : M * 2 ^ k = m * 2 ^ k') :
    (∃ j, k' = k + j ∧ M = m * 2 ^ j) ∨ ∃ j, k = k' + j ∧ M * 2 ^ j = m := by
  rcases Nat.le_total k k' with hk | hk
  · obtain ⟨j, rfl⟩ := Nat.exists_eq_add_of_le hk
    refine .inl ⟨j, rfl, Nat.eq_of_mul_eq_mul_right (Nat.two_pow_pos k) ?_⟩
    rw [h, Nat.pow_add, Nat.mul_assoc, Nat.mul_comm (2 ^ j)]
  · obtain ⟨j, rfl⟩ := Nat.exists_eq_add_of_le hk
    refine .inr ⟨j, rfl, Nat.eq_of_mul_eq_mul_right (Nat.two_pow_pos k') ?_⟩
    rw [← h, Nat.pow_add, Nat.mul_assoc, Nat.mul_comm (2 ^ j)]

/-- A mantissa that a power of two brings to 53 bits lacks that many. -/
theorem log2_add_of_mul_two_pow {M j : Nat} (hlow : 2 ^ 52 ≤ M * 2 ^ j)
    (hhigh : M * 2 ^ j < 2 ^ 53) : M.log2 + j = 52 := by
  have hne : M ≠ 0 := by
    rintro rfl
    omega
  rw [← log2_mul_pow hne]
  exact (Nat.log2_eq_iff (by omega)).mpr ⟨hlow, hhigh⟩

namespace Stands

/-- An integer that is given by any mantissa is rounded to itself. -/
theorem round (s : Sign) {M k n : Nat} (hpos : 0 < n) (hn : n ≤ 2 ^ 53)
    (h : M * 2 ^ k = n * 2 ^ 52) :
    Stands (UnpackedFloat.round Format.binary64 s M ((k : Int) - 52)) (s.apply n) := by
  obtain ⟨m, k', hlow, hhigh, hk', hm⟩ := exists_mantissa hpos hn
  have htarget {log : Nat} (hlog : (log : Int) + k = 52 + k') :
      max ((log : Int) + 1 + (k - 52) - Format.binary64.mantissaBits)
        Format.binary64.minExponent = k' - 52 := by
    change max ((log : Int) + 1 + (k - 52) - 53) (-1074) = _
    omega
  have hround (j : Nat) := roundWithAccuracy_mul_two_pow s (e := (k' : Int) - 52) hlow hhigh
    (by omega) j
  have hstands : Stands (.finite s m ((k' : Int) - 52) (by omega)) (s.apply n) :=
    .finite s (by omega) hlow hhigh hk' hm
  unfold UnpackedFloat.round decreaseExponent Format.targetExponent totalExponent
  dsimp only
  rcases eq_mul_two_pow (h.trans hm.symm) with ⟨j, rfl, rfl⟩ | ⟨j, rfl, rfl⟩
  · rw [log2_mul_two_pow hlow hhigh, htarget (by omega),
      show ((k : Int) - 52 - (((k + j : Nat) : Int) - 52)).toNat = 0 by omega, Nat.shiftLeft_zero,
      show (k : Int) - 52 - (0 : Nat) = ((k + j : Nat) : Int) - 52 - j by omega, hround]
    exact hstands
  · have hlog := log2_add_of_mul_two_pow hlow hhigh
    rw [htarget (by omega), show (((k' + j : Nat) : Int) - 52 - (k' - 52)).toNat = j by omega,
      Nat.shiftLeft_eq, show ((k' + j : Nat) : Int) - 52 - j = (k' : Int) - 52 by omega]
    have hround := hround 0
    rw [Nat.pow_zero, Nat.mul_one, Int.natCast_zero, Int.sub_zero] at hround
    rw [hround]
    exact hstands

/-- An integer with a sign is rounded to itself. -/
theorem normalize {M c : Int} {k : Nat} (hc : c.natAbs ≤ 2 ^ 53) (h : M * 2 ^ k = c * 2 ^ 52)
    (s : Sign) : Stands (UnpackedFloat.normalize Format.binary64 M ((k : Int) - 52) s) c := by
  have hpos : (0 : Int) < 2 ^ k := Int.pow_pos (by decide)
  unfold UnpackedFloat.normalize
  rcases Int.lt_trichotomy M 0 with hM | rfl | hM
  · have hneg : c < 0 := by
      have := Int.mul_neg_of_neg_of_pos hM hpos
      omega
    obtain ⟨m, rfl⟩ : ∃ m : Nat, M = -m := ⟨M.natAbs, by omega⟩
    obtain ⟨n, rfl⟩ : ∃ n : Nat, c = -n := ⟨c.natAbs, by omega⟩
    rw [Int.neg_mul, Int.neg_mul, Int.neg_inj] at h
    rw [Int.compare_eq_lt.mpr hM, Int.neg_neg, Int.toNat_natCast]
    exact round .negative (by omega) (by omega) (by exact_mod_cast h)
  · obtain rfl : c = 0 := by omega
    exact .zero s
  · have hpositive : 0 < c := by
      have := Int.mul_pos hM hpos
      omega
    obtain ⟨m, rfl⟩ := Int.eq_ofNat_of_zero_le (Int.le_of_lt hM)
    obtain ⟨n, rfl⟩ := Int.eq_ofNat_of_zero_le (Int.le_of_lt hpositive)
    rw [Int.compare_eq_gt.mpr hM, Int.toNat_natCast]
    exact round .positive (by omega) (by omega) (by exact_mod_cast h)

/-- A mantissa that is brought to a lesser exponent still gives the integer. -/
theorem decreaseExponent (s : Sign) {m k n l : Nat} (hl : l ≤ k) (hn : m * 2 ^ k = n * 2 ^ 52) :
    s.apply (UnpackedFloat.decreaseExponent m ((k : Int) - 52) ((l : Int) - 52)).1 * 2 ^ l =
      s.apply n * 2 ^ 52 := by
  obtain ⟨j, rfl⟩ := Nat.exists_eq_add_of_le hl
  have hmagnitude : (m <<< (((l + j : Nat) : Int) - 52 - (l - 52)).toNat) * 2 ^ l = n * 2 ^ 52 := by
    rw [show (((l + j : Nat) : Int) - 52 - (l - 52)).toNat = j by omega, Nat.shiftLeft_eq, ← hn,
      Nat.mul_assoc, ← Nat.pow_add, Nat.add_comm]
  change s.apply ((m <<< _ : Nat) : Int) * _ = _
  generalize m <<< (((l + j : Nat) : Int) - 52 - (l - 52)).toNat = M at hmagnitude ⊢
  have hcast : (M : Int) * 2 ^ l = n * 2 ^ 52 := by exact_mod_cast hmagnitude
  cases s with
  | negative => rw [Sign.apply, Sign.apply, Int.neg_mul, Int.neg_mul, hcast]
  | positive => exact hcast

/-- Integers with a sum of 53 bits are added without rounding. -/
theorem add {u v : UnpackedFloat} {a b : Int} (hu : Stands u a) (hv : Stands v b)
    (hsum : (a + b).natAbs ≤ 2 ^ 53) :
    Stands (UnpackedFloat.add Format.binary64 u v) (a + b) := by
  cases hu with
  | zero s =>
    cases hv with
    | zero s' => cases s <;> cases s' <;> exact .zero _
    | finite s' h' hlow' hhigh' hk' hn' =>
      rw [Int.zero_add]
      exact .finite s' h' hlow' hhigh' hk' hn'
  | @finite s m k n h hlow hhigh hk hn =>
    cases hv with
    | zero s' =>
      rw [Int.add_zero]
      exact .finite s h hlow hhigh hk hn
    | @finite s' m' k' n' h' hlow' hhigh' hk' hn' =>
      have hmin : min ((k : Int) - 52) (k' - 52) = ((min k k' : Nat) : Int) - 52 := by omega
      unfold UnpackedFloat.add
      dsimp only
      rw [hmin]
      refine normalize hsum ?_ .positive
      rw [Int.add_mul, Int.add_mul, decreaseExponent s (Nat.min_le_left k k') hn,
        decreaseExponent s' (Nat.min_le_right k k') hn']

end Stands

/-- A difference is the sum with the opposite. -/
theorem sub_eq_add_neg (u v : UnpackedFloat) :
    UnpackedFloat.sub Format.binary64 u v =
      UnpackedFloat.add Format.binary64 u (UnpackedFloat.neg v) := by
  have happly (s : Sign) (n : Int) : (-s).apply n = -s.apply n := by
    cases s
    · exact (Int.neg_neg n).symm
    · rfl
  cases u <;> cases v <;>
    simp [UnpackedFloat.sub, UnpackedFloat.add, UnpackedFloat.neg, happly, Int.sub_eq_add_neg]

section

variable {x y : Float} {a b : Int}

theorem IsInt.add (hx : IsInt x a) (hy : IsInt y b) (h : (a + b).natAbs ≤ 2 ^ 53) :
    IsInt (x + y) (a + b) :=
  (Stands.add hx hy h).pack

theorem IsInt.sub (hx : IsInt x a) (hy : IsInt y b) (h : (a - b).natAbs ≤ 2 ^ 53) :
    IsInt (x - y) (a - b) := by
  have hsum : Stands (UnpackedFloat.sub Format.binary64 x.toModel.unpack y.toModel.unpack)
      (a + -b) :=
    sub_eq_add_neg _ _ ▸ Stands.add hx (Stands.neg hy) (by omega)
  exact Int.sub_eq_add_neg ▸ hsum.pack

end

theorem toNat_unpackExponent (b : BitVec 64) :
    (@unpackExponent Format.binary64 b).toNat = b.toNat / 2 ^ 52 % 2 ^ 11 := by
  simp [unpackExponent, BitVec.extractLsb_toNat, Nat.shiftRight_eq_div_pow]

theorem toNat_unpackMantissa (b : BitVec 64) :
    (@unpackMantissa Format.binary64 b).toNat = b.toNat % 2 ^ 52 := by
  simp [unpackMantissa, BitVec.extractLsb_toNat]

theorem ofBitVec_unpackSign (b : BitVec 64) :
    Sign.ofBitVec (@unpackSign Format.binary64 b) =
      if Binary.signBit ≤ b.toNat then .negative else .positive := by
  have hsign : (@unpackSign Format.binary64 b).toNat = b.toNat / 2 ^ 63 % 2 := by
    simp [unpackSign, BitVec.extractLsb_toNat, Nat.shiftRight_eq_div_pow]
  have hzero : @unpackSign Format.binary64 b = 0#1 ↔ b.toNat / 2 ^ 63 % 2 = 0 := by
    rw [← BitVec.toNat_inj, hsign]
    rfl
  have hbits : b.toNat < 2 ^ 64 := b.isLt
  have hbit : Binary.signBit = 2 ^ 63 := rfl
  simp only [Sign.ofBitVec, hzero, hbit]
  split_ifs <;> first | rfl | omega

/-- The parts of a double whose mantissa has 53 bits. -/
theorem unpack_normal {b : BitVec 64} {biased fraction : Nat}
    (hbiased : b.toNat / 2 ^ 52 % 2 ^ 11 = biased) (hpos : 0 < biased) (hlt : biased < 0x7FF)
    (hfraction : b.toNat % 2 ^ 52 = fraction) :
    UnpackedFloat.unpack Format.binary64 b =
      .finite (if Binary.signBit ≤ b.toNat then .negative else .positive) (2 ^ 52 + fraction)
        ((biased : Int) - 1075) (by omega) := by
  have hmantissa : (1#1 ++ @unpackMantissa Format.binary64 b).toNat = 2 ^ 52 + fraction := by
    have hlow : fraction < 2 ^ 52 := hfraction ▸ Nat.mod_lt _ (by decide)
    rw [BitVec.toNat_append, toNat_unpackMantissa, hfraction,
      ← Nat.shiftLeft_add_eq_or_of_lt hlow]
    simp [Nat.shiftLeft_eq]
  have hexponent := (toNat_unpackExponent b).trans hbiased
  unfold UnpackedFloat.unpack
  simp only [ofBitVec_unpackSign]
  rw [if_neg, if_neg]
  · congr 1
    rw [hexponent]
    change (biased : Int) - (1023 + 52) = _
    omega
  · intro hzero
    rw [hzero] at hexponent
    change 0 = biased at hexponent
    omega
  · intro hones
    rw [hones] at hexponent
    change 2047 = biased at hexponent
    omega

/-- The parts of a double that is zero. -/
theorem unpack_zero {b : BitVec 64} (hbiased : b.toNat / 2 ^ 52 % 2 ^ 11 = 0)
    (hfraction : b.toNat % 2 ^ 52 = 0) :
    UnpackedFloat.unpack Format.binary64 b =
      .zero (if Binary.signBit ≤ b.toNat then .negative else .positive) := by
  have hexponent : @unpackExponent Format.binary64 b = 0#11 :=
    BitVec.toNat_inj.mp ((toNat_unpackExponent b).trans hbiased)
  have hmantissa : @unpackMantissa Format.binary64 b = 0#52 :=
    BitVec.toNat_inj.mp ((toNat_unpackMantissa b).trans hfraction)
  unfold UnpackedFloat.unpack
  simp only [ofBitVec_unpackSign]
  rw [if_neg, if_pos hexponent, dif_pos hmantissa]
  rw [hexponent]
  decide

/-- Infinities, fractions of the least numbers and what is no number are no integers. -/
theorem bits_of_stands {b : BitVec 64} {a : Int}
    (h : Stands (UnpackedFloat.unpack Format.binary64 b) a) :
    b.toNat / 2 ^ 52 % 2 ^ 11 < 0x7FF ∧
      (b.toNat / 2 ^ 52 % 2 ^ 11 = 0 → b.toNat % 2 ^ 52 = 0) := by
  rw [← toNat_unpackExponent, ← toNat_unpackMantissa]
  have hexponent : (@unpackExponent Format.binary64 b).toNat < 2 ^ 11 := BitVec.isLt _
  generalize hu : UnpackedFloat.unpack Format.binary64 b = u at h
  unfold UnpackedFloat.unpack at hu
  dsimp only at hu
  split_ifs at hu with hones hinfinite hzero hmantissa
  · subst hu
    cases h
  · subst hu
    cases h
  · rw [hzero, hmantissa]
    exact ⟨by decide, fun _ => rfl⟩
  · cases h with
    | zero => contradiction
    | finite s hm hlow hhigh hk hn =>
      -- the exponent of the least numbers is below those of integers
      injection hu with _ _ he
      rw [hzero] at he
      change (0 : Int) - (1023 + 52) + 1 = _ at he
      omega
  · refine ⟨?_, fun h => absurd (BitVec.toNat_inj.mp h) hzero⟩
    by_contra hlarge
    refine hones (BitVec.toNat_inj.mp ?_)
    change (@unpackExponent Format.binary64 b).toNat = 2047
    omega

/-- The least units of doubles are `2 ^ (-1074)`. -/
def leastUnit : Nat := 1074

/-- An integer by its parts, which are counted in the least units. -/
structure Binary.Gives (b : Binary) (a : Int) (e n : Nat) : Prop where
  exponent : b.exponent = (e : Int) - leastUnit
  mantissa : b.mantissa * 2 ^ e = n * 2 ^ leastUnit
  signed : a = if b.negative then -(n : Int) else n

/-- A double that is an integer has parts that give it. -/
theorem IsInt.parts {x : Float} {a : Int} (h : IsInt x a) :
    ∃ b e n, Binary.ofFloat? x = some b ∧ b.Gives a e n := by
  change Stands (UnpackedFloat.unpack Format.binary64 x.toBits.toBitVec) a at h
  have hbits : x.toBits.toBitVec.toNat = x.toBits.toNat := rfl
  have hleading : Binary.leadingBit = 2 ^ 52 := rfl
  have hwidth : 0x800 = 2 ^ 11 := rfl
  obtain ⟨hlt, hzero⟩ := bits_of_stands h
  rw [hbits] at hlt hzero
  unfold Binary.ofFloat?
  dsimp only
  rw [hleading, hwidth, if_neg (by omega)]
  by_cases hbiased : x.toBits.toNat / 2 ^ 52 % 2 ^ 11 = 0
  · rw [unpack_zero hbiased (hzero hbiased)] at h
    obtain rfl : a = 0 := by
      generalize hu : UnpackedFloat.zero _ = u at h
      cases h with
      | zero => rfl
      | finite => contradiction
    rw [if_pos hbiased, hzero hbiased]
    exact ⟨_, 0, 0, rfl, ⟨rfl, by simp, by simp⟩⟩
  · rw [unpack_normal (b := x.toBits.toBitVec) rfl (Nat.pos_of_ne_zero hbiased) hlt rfl] at h
    rw [if_neg hbiased]
    generalize hu : UnpackedFloat.finite _ _ _ _ = u at h
    cases h with
    | zero => contradiction
    | @finite s m k n hm hlow hhigh hk hn =>
      injection hu with hs hm he
      rw [hbits] at hs hm he
      have hunit : leastUnit = 52 + 1022 := rfl
      refine ⟨_, k + 1022, n, rfl, ⟨?_, ?_, ?_⟩⟩
      · change ((x.toBits.toNat / 2 ^ 52 % 2 ^ 11 : Nat) : Int) - 1075 = _
        rw [he, hunit]
        omega
      · rw [hunit, Nat.add_comm, hm, Nat.pow_add, Nat.pow_add, ← Nat.mul_assoc, hn, Nat.mul_assoc]
      · rw [← hs]
        by_cases hsign : Binary.signBit ≤ x.toBits.toNat <;> simp [hsign, Sign.apply]

/-- The bits of a positive or negative integer. -/
theorem isInt_ofBits (negative : Bool) {m k n : Nat} (hlow : 2 ^ 52 ≤ m) (hhigh : m < 2 ^ 53)
    (hk : k ≤ 53) (hn : m * 2 ^ k = n * 2 ^ 52) :
    IsInt (Float.ofBits (UInt64.ofNat ((k + 1022) * 2 ^ 52 + m +
      if negative then Binary.signBit else 0))) (if negative then -(n : Int) else n) := by
  have hbit : Binary.signBit = 2 ^ 63 := rfl
  have hsum : (if negative then Binary.signBit else 0) = if negative then 2 ^ 63 else 0 := rfl
  rw [hsum]
  generalize hbits : (k + 1022) * 2 ^ 52 + m + (if negative then 2 ^ 63 else 0) = bits
  have hword : (UInt64.ofNat bits).toBitVec.toNat = bits := by
    refine UInt64.toNat_ofNat_of_lt' ?_
    change bits < 2 ^ 64
    cases negative <;> simp at hbits <;> omega
  have hbiased : (UInt64.ofNat bits).toBitVec.toNat / 2 ^ 52 % 2 ^ 11 = k + 1023 := by
    rw [hword]
    cases negative <;> simp at hbits <;> omega
  have hfraction : (UInt64.ofNat bits).toBitVec.toNat % 2 ^ 52 = m - 2 ^ 52 := by
    rw [hword]
    cases negative <;> simp at hbits <;> omega
  have hparts := unpack_normal hbiased (by omega) (by omega) hfraction
  have hsign : Binary.signBit ≤ bits ↔ negative = true := by
    rw [hbit]
    cases negative <;> simp at hbits ⊢ <;> omega
  have hstands : Stands (UnpackedFloat.unpack Format.binary64 (UInt64.ofNat bits).toBitVec)
      (if negative then -(n : Int) else n) := by
    rw [hparts]
    simp only [hword, hsign, show 2 ^ 52 + (m - 2 ^ 52) = m by omega,
      show ((k + 1023 : Nat) : Int) - 1075 = (k : Int) - 52 by omega]
    cases negative
    · exact .finite .positive (by omega) hlow hhigh hk hn
    · exact .finite .negative (by omega) hlow hhigh hk hn
  exact hstands.pack

theorem isInt_ofBits_zero (negative : Bool) :
    IsInt (Float.ofBits (UInt64.ofNat (0 + if negative then Binary.signBit else 0))) 0 := by
  cases negative <;> exact Stands.pack (.zero _)

/-- Parts that give an integer of 53 bits are those of a double. -/
theorem isInt_toFloat {b : Binary} {a : Int} {e n : Nat} (h : b.Gives a e n) (hn : n ≤ 2 ^ 53) :
    IsInt b.toFloat a := by
  obtain ⟨hexponent, hmantissa, rfl⟩ := h
  have hleading : Binary.leadingBit = 2 ^ 52 := rfl
  obtain ⟨normal, hnormal, hunit⟩ : ∃ normal, normal = 1022 ∧ leastUnit = 52 + normal :=
    ⟨_, rfl, rfl⟩
  unfold Binary.toFloat
  dsimp only
  rcases Nat.eq_zero_or_pos n with rfl | hpos
  · obtain hzero : b.mantissa = 0 := by simpa using hmantissa
    rw [hzero, Nat.zero_shiftLeft, Nat.zero_shiftRight, if_pos (by decide)]
    simpa using isInt_ofBits_zero b.negative
  · obtain ⟨m, k, hlow, hhigh, hk, hm⟩ := exists_mantissa hpos hn
    have hsame : b.mantissa * 2 ^ e = m * 2 ^ (k + normal) := by
      rw [hmantissa, hunit, Nat.pow_add 2 52, Nat.pow_add 2 k, ← Nat.mul_assoc, ← Nat.mul_assoc,
        hm]
    have hlast (hlog : b.mantissa.log2 + e = 52 + (k + normal)) :
        max (b.exponent + b.mantissa.log2 - 52) (-1074) = (k : Int) - 52 := by
      rw [hexponent, hunit]
      omega
    have hkept : b.mantissa.log2 + e = 52 + (k + normal) ∧
        b.mantissa <<< (b.exponent - (k - 52)).toNat >>>
          ((k : Int) - 52 - b.exponent).toNat = m := by
      rw [hexponent, hunit]
      rcases eq_mul_two_pow hsame with ⟨j, hj, hM⟩ | ⟨j, rfl, hM⟩
      · rw [hM, log2_mul_two_pow hlow hhigh]
        refine ⟨by omega, ?_⟩
        rw [show ((e : Int) - (52 + normal : Nat) - (k - 52)).toNat = 0 by omega,
          show ((k : Int) - 52 - (e - (52 + normal : Nat))).toNat = j by omega, Nat.shiftLeft_zero,
          Nat.shiftRight_eq_div_pow, Nat.mul_div_cancel _ (Nat.two_pow_pos j)]
      · have hlog := log2_add_of_mul_two_pow (hM ▸ hlow) (hM ▸ hhigh)
        refine ⟨by omega, ?_⟩
        rw [show (((k + normal + j : Nat) : Int) - (52 + normal : Nat) - (k - 52)).toNat = j by
            omega,
          show ((k : Int) - 52 - ((k + normal + j : Nat) - (52 + normal : Nat))).toNat = 0 by omega,
          Nat.shiftRight_zero, Nat.shiftLeft_eq, hM]
    rw [hlast hkept.1, hkept.2, if_neg (by omega),
      show ((k : Int) - 52 + 1074).toNat = k + 1022 by omega, hleading]
    exact isInt_ofBits b.negative hlow hhigh hk hm

/-- The remainder of integers is that of the doubles. -/
theorem IsInt.remainder {x y : Float} {a b : Int} (hx : IsInt x a) (hy : IsInt y b) (hb : b ≠ 0)
    (ha : a.natAbs ≤ 2 ^ 53) : IsInt (remainder x y) (a.tmod b) := by
  obtain ⟨c, e, n, hc, hexponent, hmantissa, hsigned⟩ := hx.parts
  obtain ⟨d, e', n', hd, hexponent', hmantissa', hsigned'⟩ := hy.parts
  have hn' : n' ≠ 0 := by
    rintro rfl
    exact hb (by simpa using hsigned')
  have hscaled {m k n : Nat} (l : Nat) (hm : m * 2 ^ (l + k) = n * 2 ^ leastUnit) :
      m <<< k * 2 ^ l = n * 2 ^ leastUnit := by
    rw [Nat.shiftLeft_eq, ← hm, Nat.mul_assoc, ← Nat.pow_add, Nat.add_comm]
  have hzero : d.mantissa ≠ 0 := by
    intro hzero
    rw [hzero, Nat.zero_mul] at hmantissa'
    have := Nat.mul_pos (Nat.pos_of_ne_zero hn') (Nat.two_pow_pos leastUnit)
    omega
  obtain ⟨l, j, j', rfl, rfl, hunit⟩ : ∃ l j j', e = l + j ∧ e' = l + j' ∧
      min c.exponent d.exponent = (l : Int) - leastUnit :=
    ⟨min e e', e - min e e', e' - min e e', by omega, by omega, by omega⟩
  unfold Number.remainder
  simp only [hc, hd, if_neg hzero, hunit]
  rw [show (c.exponent - (l - leastUnit)).toNat = j by omega,
    show (d.exponent - (l - leastUnit)).toNat = j' by omega]
  refine isInt_toFloat (e := l) (n := n % n') ⟨rfl, ?_, ?_⟩ ?_
  · dsimp only
    rw [← Nat.mul_mod_mul_right, hscaled l hmantissa, hscaled l hmantissa', Nat.mul_mod_mul_right]
  · dsimp only
    rw [hsigned, hsigned', Int.ofNat_tmod]
    cases c.negative <;> cases d.negative <;> simp
  · have hle := Nat.mod_le n n'
    cases hnegative : c.negative <;> simp [hnegative] at hsigned <;> omega

end Hologram.Number
