import Hologram.Number.Shortest
import Hologram.Proofs.Number.Whole

/-! The shortest decimals that are whole numbers. Such a decimal is on a grid of whole numbers and
in the interval that rounds to the double. Where the bits of the double are at most one apart this
is the double itself, and beyond it the interval does not reach across `2 ^ 63`. -/
namespace Hologram.Number

/-- A decimal without digits behind the point as a natural number. -/
def Decimal.natural (d : Decimal) : Nat :=
  d.digits * 10 ^ d.exponent.toNat

namespace Interval

variable {i : Interval} {halfway : Halfway} {d : Nat} {k : Int}

/-- Of two neighbours, one that is inside is taken. -/
theorem inside_nearer (inside : Nat → Bool) {prefersNext : Bool} {below : Nat}
    (h : (if inside below && !(inside (below + 1) && prefersNext) then some below
      else if inside (below + 1) then some (below + 1) else none) = some d) : inside d = true := by
  split_ifs at h with hbelow hnext
  · cases h
    exact (Bool.and_eq_true_iff.mp hbelow).1
  · cases h
    exact hnext

/-- The point of a grid is between the ends of the interval. -/
theorem point?_bounds (h : i.point? halfway k = some d) :
    i.lower * (10 ^ (-k).toNat * 2 ^ i.exponent.toNat) ≤
        d * (10 ^ k.toNat * 2 ^ (-i.exponent).toNat) ∧
      d * (10 ^ k.toNat * 2 ^ (-i.exponent).toNat) ≤
        i.upper * (10 ^ (-k).toNat * 2 ^ i.exponent.toNat) := by
  have hinside := inside_nearer (fun d =>
    let scale := Nat.pow 10 (-k).toNat <<< i.exponent.toNat
    let step := Nat.pow 10 k.toNat <<< (-i.exponent).toNat
    if i.closed then i.lower * scale ≤ d * step && d * step ≤ i.upper * scale
    else i.lower * scale < d * step && d * step < i.upper * scale) h
  simp only [Nat.shiftLeft_eq, Nat.pow_eq] at hinside
  split_ifs at hinside <;> simp only [Bool.and_eq_true, decide_eq_true_eq] at hinside
  · exact hinside
  · exact ⟨Nat.le_of_lt hinside.1, Nat.le_of_lt hinside.2⟩

/-- The shortest decimal is the point of its grid, unless no grid has one. -/
theorem point?_shortest (h : (i.shortest halfway).digits ≠ 0) :
    i.point? halfway (i.shortest halfway).exponent = some (i.shortest halfway).digits := by
  unfold shortest at h ⊢
  dsimp only at h ⊢
  generalize hfound : List.findSome? _ _ = found at h ⊢
  cases found with
  | none => contradiction
  | some decimal =>
    obtain ⟨k, -, hk⟩ := List.exists_of_findSome?_eq_some hfound
    obtain ⟨d, hd, rfl⟩ := Option.map_eq_some_iff.mp hk
    exact hd

/-- A whole number between the ends of the interval, in quarters of the last bit. -/
theorem natural_bounds {m : Nat} {e : Int} (hk : 0 ≤ k)
    (h : (ofBinary m e).point? halfway k = some d) :
    (ofBinary m e).lower * 2 ^ e.toNat ≤ d * 10 ^ k.toNat * 2 ^ (2 + (-e).toNat) ∧
      d * 10 ^ k.toNat * 2 ^ (2 + (-e).toNat) ≤ (4 * m + 2) * 2 ^ e.toNat := by
  obtain ⟨hlower, hupper⟩ := point?_bounds h
  have hwhole : (-k).toNat = 0 := by omega
  have hexponent : (ofBinary m e).exponent = e - 2 := rfl
  rw [hwhole, Nat.pow_zero, Nat.one_mul, ← Nat.mul_assoc, hexponent] at hlower hupper
  exact ⟨mul_two_pow_le hlower (by omega), mul_two_pow_le hupper (by omega)⟩

theorem lower_ofBinary (m : Nat) (e : Int) : (ofBinary m e).lower =
    4 * m - if m = Binary.leadingBit ∧ -1074 < e then 1 else 2 := rfl

/-- Where bits are at most one apart, a whole number in the interval is the double itself. -/
theorem natural_eq {m : Nat} {e : Int} (he : e ≤ 0) (hk : 0 ≤ k)
    (h : (ofBinary m e).point? halfway k = some d) :
    d * 10 ^ k.toNat * 2 ^ (-e).toNat = m := by
  obtain ⟨hlower, hupper⟩ := natural_bounds hk h
  have hnone : e.toNat = 0 := by omega
  rw [hnone, Nat.pow_zero, Nat.mul_one, Nat.pow_add, Nat.mul_left_comm] at hlower hupper
  rw [lower_ofBinary] at hlower
  split_ifs at hlower <;> omega

/-- The shortest decimal of `2 ^ 63` is greater than it. -/
theorem shortest_two_pow : (ofBinary (2 ^ 52) 11).shortest .up = ⟨9223372036854776, 3⟩ := by
  decide +kernel

/-- Above `2 ^ 63` the interval does not reach below it. -/
theorem le_lower_mul {m e : Nat} (hm : 2 ^ 52 ≤ m) (he : 11 ≤ e) (h : m ≠ 2 ^ 52 ∨ e ≠ 11) :
    2 ^ 54 * 2 ^ 11 ≤ (ofBinary m e).lower * 2 ^ e := by
  rw [lower_ofBinary]
  rcases Nat.lt_or_eq_of_le hm with hlt | rfl
  · exact Nat.mul_le_mul (by split_ifs <;> omega) (Nat.pow_le_pow_right (by decide) he)
  · calc 2 ^ 54 * 2 ^ 11 ≤ (4 * 2 ^ 52 - 2) * 2 ^ 12 := by decide
      _ ≤ _ := Nat.mul_le_mul (by split_ifs <;> omega)
        (Nat.pow_le_pow_right (by decide) (by omega))

/-- A whole number in the interval is on the same side of `2 ^ 63` as the double. -/
theorem natural_lt_iff {m e : Nat} (hlow : 2 ^ 52 ≤ m) (hhigh : m < 2 ^ 53) (he : 0 < e)
    (hd : ((ofBinary m e).shortest .up).digits ≠ 0)
    (hk : 0 ≤ ((ofBinary m e).shortest .up).exponent) :
    ((ofBinary m e).shortest .up).natural < 2 ^ 63 ↔ m * 2 ^ e < 2 ^ 63 := by
  obtain ⟨hlower, hupper⟩ := natural_bounds hk (point?_shortest hd)
  have hnone : (-(e : Int)).toNat = 0 := by omega
  rw [hnone, Int.toNat_natCast] at hlower hupper
  change _ ≤ Decimal.natural _ * 2 ^ 2 at hlower
  change Decimal.natural _ * 2 ^ 2 ≤ _ at hupper
  rcases Nat.lt_or_ge e 11 with hsmall | hlarge
  · have hpow : 2 ^ e ≤ 2 ^ 10 := Nat.pow_le_pow_right (by decide) (by omega)
    have hvalue : m * 2 ^ e ≤ (2 ^ 53 - 1) * 2 ^ 10 := Nat.mul_le_mul (by omega) hpow
    have hend : (4 * m + 2) * 2 ^ e ≤ (4 * (2 ^ 53 - 1) + 2) * 2 ^ 10 :=
      Nat.mul_le_mul (by omega) hpow
    omega
  · have hvalue : 2 ^ 52 * 2 ^ 11 ≤ m * 2 ^ e :=
      Nat.mul_le_mul hlow (Nat.pow_le_pow_right (by decide) hlarge)
    suffices 2 ^ 63 ≤ ((ofBinary m e).shortest .up).natural by omega
    by_cases hleast : m = 2 ^ 52 ∧ e = 11
    · -- the digits of `2 ^ 63` itself are rounded up
      obtain ⟨rfl, rfl⟩ := hleast
      change 2 ^ 63 ≤ ((ofBinary (2 ^ 52) 11).shortest .up).natural
      rw [shortest_two_pow]
      decide
    · have hend := le_lower_mul hlow hlarge (not_and_or.mp hleast)
      omega

end Interval

namespace Binary

variable {b : Binary}

/-- The mantissa of a double has at most 53 bits, and all of them above the whole numbers. -/
theorem bounds_of_ofFloat? {x : Float} (h : ofFloat? x = some b) :
    b.mantissa < 2 ^ 53 ∧ (0 < b.exponent → 2 ^ 52 ≤ b.mantissa) := by
  have hbit : leadingBit = 2 ^ 52 := rfl
  unfold ofFloat? at h
  dsimp only at h
  rw [hbit] at h
  split_ifs at h <;> cases h <;> dsimp only <;> omega

theorem whole_of_nonpos (h : b.exponent ≤ 0) : b.whole = b.mantissa / 2 ^ (-b.exponent).toNat := by
  have hnone : b.exponent.toNat = 0 := by omega
  rw [whole, hnone, Nat.shiftLeft_zero, Nat.shiftRight_eq_div_pow]

theorem whole_of_nonneg (h : 0 ≤ b.exponent) : b.whole = b.mantissa * 2 ^ b.exponent.toNat := by
  have hnone : (-b.exponent).toNat = 0 := by omega
  rw [whole, hnone, Nat.shiftRight_zero, Nat.shiftLeft_eq]

theorem natAbs_truncated : b.truncated.natAbs = b.whole := by
  unfold truncated
  split_ifs <;> omega

theorem isWhole_of_nonneg (h : 0 ≤ b.exponent) : b.isWhole = true := by
  have hnone : (-b.exponent).toNat = 0 := by omega
  rw [isWhole, whole_of_nonneg h, hnone, Nat.shiftLeft_zero, Nat.shiftLeft_eq, beq_self_eq_true]

/-- Digits behind the point take bits. -/
theorem whole_lt_of_nonpos (h : b.exponent ≤ 0) (hm : b.mantissa < 2 ^ 53) : b.whole < 2 ^ 53 := by
  rw [whole_of_nonpos h]
  exact Nat.lt_of_le_of_lt (Nat.div_le_self ..) hm

end Binary

section

variable {x : Float} {b : Binary}

theorem shortest_eq_interval {halfway : Halfway} (h : (shortest halfway b).digits ≠ 0) :
    shortest halfway b = (Interval.ofBinary b.mantissa b.exponent).shortest halfway := by
  unfold shortest at h ⊢
  split_ifs at h ⊢
  · contradiction
  · rfl

/-- Up to `2 ^ 53` the shortest decimal that is a whole number is the double itself. -/
theorem natural_shortest_eq {halfway : Halfway} (hexponent : b.exponent ≤ 0)
    (hd : (shortest halfway b).digits ≠ 0) (hk : 0 ≤ (shortest halfway b).exponent) :
    (shortest halfway b).natural = b.whole := by
  have hinterval := shortest_eq_interval hd
  rw [hinterval] at hd hk ⊢
  have hvalue := Interval.natural_eq hexponent hk (Interval.point?_shortest hd)
  rw [Binary.whole_of_nonpos hexponent]
  exact (Nat.div_eq_of_eq_mul_left (Nat.two_pow_pos _) hvalue.symm).symm

/-- The shortest decimal that is a whole number has 63 bits exactly when the double has. -/
theorem natural_shortest_lt_iff (hx : Binary.ofFloat? x = some b)
    (hd : (shortest .up b).digits ≠ 0) (hk : 0 ≤ (shortest .up b).exponent) :
    (shortest .up b).natural < 2 ^ 63 ↔ b.whole < 2 ^ 63 := by
  obtain ⟨hhigh, hlow⟩ := Binary.bounds_of_ofFloat? hx
  by_cases hexponent : b.exponent ≤ 0
  · rw [natural_shortest_eq hexponent hd hk]
  · obtain ⟨e, he⟩ := Int.eq_ofNat_of_zero_le (a := b.exponent) (by omega)
    rw [Binary.whole_of_nonneg (by omega)]
    have hinterval := shortest_eq_interval hd
    rw [hinterval, he] at hd hk ⊢
    exact Interval.natural_lt_iff (hlow (by omega)) hhigh (by omega) hd hk

end

end Hologram.Number
