import Hologram.Number.Reading
import Hologram.Proofs.Number.Arithmetic

/-! Quotients that are integers. A division that leaves no remainder is not rounded, so that an
integer of fifteen digits is read alike with a zero behind its point and without one. -/
namespace Hologram.Number
open Float.Model UnpackedFloat

/-- The exponent of a product is that of its factors, or greater by one. -/
theorem log2_mul_le {m n : Nat} (hm : m ≠ 0) (hn : n ≠ 0) :
    (m * n).log2 ≤ m.log2 + n.log2 + 1 := by
  have hlt : (m * n).log2 < m.log2 + 1 + (n.log2 + 1) := by
    rw [Nat.log2_lt (Nat.mul_ne_zero hm hn), Nat.pow_add]
    exact Nat.mul_lt_mul_of_lt_of_lt Nat.lt_log2_self Nat.lt_log2_self
  omega

/-- A division without a remainder gives a mantissa of 53 bits, with zeros behind it. -/
theorem divCore_eq {M D m a b k : Nat} {e e' : Int} (hM : 0 < M) (hD : 0 < D) (hlow : 2 ^ 52 ≤ m)
    (hhigh : m < 2 ^ 53) (hexponents : e - e' = (a : Int) - b)
    (h : M * 2 ^ (a + 52) = m * D * 2 ^ (k + b)) :
    ∃ j : Nat, divCore Format.binary64 M e D e' = (m * 2 ^ j, (k : Int) - 52 - j, .exact) := by
  obtain ⟨t, ht⟩ : ∃ t, min (e - e')
      (Format.binary64.targetExponent (totalExponent M e - totalExponent D e')) = t := ⟨_, rfl⟩
  -- the quotient has at least as many bits as a mantissa
  have htarget : t ≤ (k : Int) - 52 := by
    have hlog := congrArg Nat.log2 h
    rw [log2_mul_pow (by omega), log2_mul_pow (Nat.mul_ne_zero (by omega) (by omega))] at hlog
    have hle := log2_mul_le (m := m) (n := D) (by omega) (by omega)
    have hm52 : m.log2 = 52 := by simpa using log2_mul_two_pow hlow hhigh 0
    refine ht ▸ Int.le_trans (Int.min_le_right _ _) ?_
    change max ((M.log2 : Int) + 1 + e - (D.log2 + 1 + e') - 53) (-1074) ≤ _
    omega
  obtain ⟨j, hj⟩ := Int.eq_ofNat_of_zero_le (Int.sub_nonneg.mpr htarget)
  obtain ⟨s, hs⟩ := Int.eq_ofNat_of_zero_le (Int.sub_nonneg.mpr (ht ▸ Int.min_le_left (e - e') _))
  obtain rfl : t = (k : Int) - 52 - j := by omega
  have hdividend : M * 2 ^ s = m * D * 2 ^ j := mul_two_pow_eq h (by omega)
  have hquotient : m * D * 2 ^ j = m * 2 ^ j * D := by ring
  refine ⟨j, ?_⟩
  unfold divCore
  simp only [ht, hs, Int.toNat_natCast, Nat.shiftLeft_eq, hdividend, hquotient, Nat.mul_mod_left,
    Nat.mul_div_cancel _ hD]
  rfl

/-- The quotient of numbers is the integer by which they differ as a factor. -/
theorem Stands.div {M D n a b : Nat} {e e' : Int} (hM : 0 < M) (hD : 0 < D) (hn : n ≤ 2 ^ 53)
    (hexponents : e - e' = (a : Int) - b) (h : M * 2 ^ a = n * D * 2 ^ b) :
    Stands (UnpackedFloat.div Format.binary64 (.finite .positive M e hM)
      (.finite .positive D e' hD)) n := by
  have hpos : 0 < n := by
    rcases Nat.eq_zero_or_pos n with rfl | hpos
    · have := Nat.mul_pos hM (Nat.two_pow_pos a)
      omega
    · exact hpos
  obtain ⟨m, k, hlow, hhigh, hk, hm⟩ := exists_mantissa hpos hn
  have hsame : M * 2 ^ (a + 52) = m * D * 2 ^ (k + b) := by
    calc M * 2 ^ (a + 52) = n * 2 ^ 52 * D * 2 ^ b := by
          rw [Nat.pow_add, ← Nat.mul_assoc, h]
          ring
      _ = m * D * 2 ^ (k + b) := by rw [← hm]; ring
  obtain ⟨j, hcore⟩ := divCore_eq hM hD hlow hhigh hexponents hsame
  unfold UnpackedFloat.div
  simp only [hcore]
  rw [roundWithAccuracy_mul_two_pow _ hlow hhigh (by omega) j]
  exact .finite .positive _ hlow hhigh hk hm

/-- The parts of a positive integer. -/
theorem Stands.exists_finite {u : UnpackedFloat} {n : Nat} (h : Stands u n) (hn : 0 < n) :
    ∃ (m k : Nat) (hm : 0 < m), u = .finite .positive m ((k : Int) - 52) hm ∧
      m * 2 ^ k = n * 2 ^ 52 := by
  generalize ha : (n : Int) = a at h
  cases h with
  | zero => omega
  | @finite s m k n' hm hlow hhigh hk hn' =>
    cases s with
    | negative =>
      change (n : Int) = -(n' : Int) at ha
      omega
    | positive =>
      obtain rfl : n = n' := Int.ofNat_inj.mp ha
      exact ⟨m, k, hm, rfl, hn'⟩

theorem unpack_ten : (Float.ofBits 0x4024000000000000).toModel.unpack =
    .finite .positive (5 * 2 ^ 50) (-49) (by decide) := by rfl

theorem isInt_tenths {n : Nat} (hpos : 0 < n) (hn : n < 10 ^ 15) :
    IsInt (Float.ofScientific (10 * n) true 1) n := by
  unfold Float.ofScientific
  by_cases hshort : 10 * n < 2 ^ 53 ∧ 1 ≤ 22
  · rw [dif_pos hshort]
    have hword : (10 * n).toUInt64.toNat = 10 * n :=
      UInt64.toNat_ofNat_of_lt' (Nat.lt_trans hshort.1 (by decide))
    have hdividend : Stands (10 * n).toUInt64.toFloat.toModel.unpack ((10 * n : Nat) : Int) := by
      refine Stands.pack ?_
      change Stands (UnpackedFloat.ofNat Format.binary64 (10 * n).toUInt64.toNat) _
      rw [hword]
      exact Stands.ofNat hshort.1
    obtain ⟨m, k, hm, hunpack, hparts⟩ := hdividend.exists_finite (by omega)
    refine Stands.pack ?_
    simp only [Float.exactlyRepresentablePowersOfTen, List.getElem_toArray,
      List.getElem_cons_succ, List.getElem_cons_zero]
    rw [hunpack, unpack_ten]
    refine Stands.div hm (by decide) (by omega) (a := k) (b := 3) (by omega) ?_
    rw [hparts]
    ring
  · rw [dif_neg hshort]
    refine Stands.pack ?_
    change Stands (UnpackedFloat.ofScientific Format.binary64 (10 * n) (-1)) n
    unfold UnpackedFloat.ofScientific
    have hwide : ¬ (-1 : Int) > 2 ^ Format.binary64.exponentBits := by decide
    have hlog : ¬ (-1 : Int) < -((2 ^ Format.binary64.exponentBits : Int) + (10 * n).log2) := by
      change ¬ (-1 : Int) < -(2 ^ 11 + ((10 * n).log2 : Int))
      omega
    rw [dif_neg (by omega), if_neg hwide, if_neg hlog, if_neg (by decide)]
    refine Stands.div (by omega) (by decide) (by omega) (a := 0) (b := 0) rfl ?_
    change 10 * n * 2 ^ 0 = n * 10 * 2 ^ 0
    rw [Nat.mul_comm 10 n]

/-- An integer of fifteen digits is read alike with a zero behind its point. -/
theorem ofScientific_tenths {n : Nat} (hn : n < 10 ^ 15) :
    Float.ofScientific (10 * n) true 1 = Float.ofNat n := by
  rcases Nat.eq_zero_or_pos n with rfl | hpos
  · decide +kernel
  · exact (isInt_tenths hpos hn).eq (stands_ofNat (by omega)) (by omega)

end Hologram.Number
