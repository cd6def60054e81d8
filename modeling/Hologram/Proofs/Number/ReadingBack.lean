import Hologram.Proofs.Number.Grid
import Hologram.Proofs.Number.LiteralText
import Hologram.Proofs.Number.Quotient

/-! Literals read as numbers. When a double is read back from its plain text, it is read back from
its literal as well: the zero behind the point of a whole number changes nothing, and digits without
a point are those of an integer that the double is nearest to. -/
namespace Hologram.Number
open Float.Model UnpackedFloat

theorem ofDigits_zeros (ds : List Char) (n : Nat) :
    ofDigits (ds ++ List.replicate n '0') = ofDigits ds * 10 ^ n := by
  induction n with
  | zero => simp
  | succ n ih =>
    rw [List.replicate_succ', ← List.append_assoc]
    unfold ofDigits at ih ⊢
    rw [List.foldl_append, ih, Nat.pow_succ]
    change 10 * _ + 0 = _
    ring

theorem ofDigits_digits (n : Nat) : ofDigits (Layout.digits n) = n :=
  Nat.ofDigitChars_ten_toDigits

namespace Layout

variable {d : Decimal}

/-- The digits of a decimal without places behind the point are those of its value. -/
theorem ofDigits_decimal_plain (h : 0 ≤ d.exponent) :
    ofDigits (plain.decimal d) = d.natural := by
  unfold decimal Decimal.natural
  dsimp only
  split_ifs with hzero
  · rw [hzero, Nat.zero_mul]
    rfl
  · have hne : digits d.digits ≠ [] := Nat.toDigits_ne_nil
    rw [positioned_plain_eq (by omega) hne, ofDigits_zeros, ofDigits_digits,
      show (d.exponent + (digits d.digits).length - 1 + 1 - (digits d.digits).length) =
        d.exponent by omega]
  · exact absurd rfl ‹_›

/-- A decimal with places behind the point is written with a point. -/
theorem exists_decimal_plain (h : d.exponent < 0) (hd : d.digits ≠ 0) :
    ∃ ds fs, IsDigits ds ∧ IsDigits fs ∧ plain.decimal d = ds ++ '.' :: fs := by
  unfold decimal
  dsimp only
  rw [if_neg hd, if_pos (show plain.positional _ = true from rfl)]
  exact exists_positioned_plain (by omega) (.digits _)

theorem decimal_plain_zero (h : d.digits = 0) : plain.decimal d = ['0'] := by
  unfold decimal
  rw [h]
  rfl

theorem exists_cons_decimal_plain (d : Decimal) :
    ∃ c cs, plain.decimal d = c :: cs ∧ c.isDigit = true := by
  have hdigits {ds : List Char} (hds : IsDigits ds) (rest : List Char) :
      ∃ c cs, ds ++ rest = c :: cs ∧ c.isDigit = true := by
    obtain ⟨c, cs, rfl⟩ := List.exists_cons_of_ne_nil hds.1
    exact ⟨c, cs ++ rest, rfl, hds.2 c (.head _)⟩
  by_cases h : d.exponent < 0 ∧ d.digits ≠ 0
  · obtain ⟨ds, fs, hds, -, heq⟩ := exists_decimal_plain h.1 h.2
    rw [heq]
    exact hdigits hds _
  · have hwhole : IsDigits (plain.decimal d) := by
      by_cases hd : d.digits = 0
      · rw [decimal_plain_zero hd]
        exact .zero
      · exact isDigits_decimal_plain (by omega)
    rw [← List.append_nil (plain.decimal d)]
    exact hdigits hwhole []

end Layout

section

variable {ds fs : List Char}

theorem unsigned?_digits (hds : IsDigits ds) :
    unsigned? ds = some (ofScaled (ofDigits ds) 0) := by
  have hne : ds.isEmpty = false := List.isEmpty_eq_false_iff.mpr hds.1
  unfold unsigned?
  simp only [List.takeWhile_eq_self_iff.mpr hds.2, List.dropWhile_eq_nil_iff.mpr hds.2, hne,
    List.append_nil]
  rfl

theorem unsigned?_point (hds : IsDigits ds) (hfs : IsDigits fs) :
    unsigned? (ds ++ '.' :: fs) = some (ofScaled (ofDigits (ds ++ fs)) (-(fs.length : Int))) := by
  have hne : ds.isEmpty = false := List.isEmpty_eq_false_iff.mpr hds.1
  unfold unsigned?
  rw [List.takeWhile_append_of_pos hds.2, List.dropWhile_append_of_pos hds.2,
    List.takeWhile_cons_of_neg (by decide), List.dropWhile_cons_of_neg (by decide)]
  simp only [List.append_nil, List.takeWhile_eq_self_iff.mpr hfs.2,
    List.dropWhile_eq_nil_iff.mpr hfs.2, hne, Bool.false_and]
  simp

theorem toLower_of_isDigit {c : Char} (h : c.isDigit = true) : c.toLower = c := by
  have hc : 48 ≤ c.toNat ∧ c.toNat ≤ 57 := Char.isDigit_iff_toNat.mp h
  have hbelow : ¬ (c.val ≥ 'A'.val ∧ c.val ≤ 'Z'.val) := by
    intro hupper
    have habove : 65 ≤ c.toNat := UInt32.le_iff_toNat_le.mp hupper.1
    omega
  rw [Char.toLower, dif_neg hbelow]

/-- A text that begins with a digit names a decimal number, and the sign before it is its own. -/
theorem ofText?_signed {text : String} {negative : Bool} {c : Char} {cs : List Char}
    (hc : c.isDigit = true) (h : text.toList = (if negative then ['-'] else []) ++ c :: cs) :
    ofText? text = (unsigned? (c :: cs)).map fun y => if negative then -y else y := by
  have hne (d : Char) (hd : d.isDigit = false) : c ≠ d := by
    rintro rfl
    rw [hc] at hd
    contradiction
  have hname (name : String) {d : Char} (hd : d.isDigit = false)
      (hhead : name.toList.head? = some d) :
      String.ofList ((c :: cs).map Char.toLower) ≠ name := by
    rintro rfl
    rw [String.toList_ofList, List.map_cons, toLower_of_isDigit hc] at hhead
    exact hne d hd (Option.some.inj hhead)
  have hinf := hname "inf" (d := 'i') (by decide) rfl
  have hinfinity := hname "infinity" (d := 'i') (by decide) rfl
  have hnan := hname "nan" (d := 'n') (by decide) rfl
  have hmagnitude : (if String.ofList ((c :: cs).map Char.toLower) = "inf" ∨
        String.ofList ((c :: cs).map Char.toLower) = "infinity" then some infinity
      else if String.ofList ((c :: cs).map Char.toLower) = "nan" then some missing
      else unsigned? (c :: cs)) = unsigned? (c :: cs) := by
    rw [if_neg (not_or.mpr ⟨hinf, hinfinity⟩), if_neg hnan]
  unfold ofText?
  rw [h]
  cases negative with
  | true => exact congrArg (Option.map fun y => -y) hmagnitude
  | false =>
    have hsame : (unsigned? (c :: cs)).map (fun y => if false then -y else y) =
        unsigned? (c :: cs) := by simp
    rw [hsame, if_neg Bool.false_ne_true, List.nil_append]
    dsimp only
    split
    · exact absurd (List.cons.inj ‹_›).1 (hne '-' (by decide))
    · exact absurd (List.cons.inj ‹_›).1 (hne '+' (by decide))
    · exact hmagnitude

theorem ofScaled_zero (n : Nat) : ofScaled n 0 = Float.ofNat n := by
  unfold ofScaled
  rcases Nat.eq_zero_or_pos n with rfl | hpos
  · decide +kernel
  · rw [if_neg (by omega), if_neg (by decide), if_neg (by omega)]
    rfl

/-- A number with places behind the point is not cut short, unless it vanishes. -/
theorem ofScaled_neg {n k : Nat} (hk : 0 < k) :
    ofScaled n (-(k : Int)) = 0.0 ∨ ofScaled n (-(k : Int)) = Float.ofScientific n true k := by
  unfold ofScaled
  split_ifs with hzero hlarge hsmall
  · exact .inl rfl
  · omega
  · exact .inl rfl
  · refine .inr ?_
    rw [decide_eq_true (show -(k : Int) < 0 by omega), Int.natAbs_neg, Int.natAbs_natCast]

end

section

variable {x y : Float} {b : Binary}

/-- The parts of a double whose last bit is above one. -/
theorem exists_finite_of_exponent_pos (hx : Binary.ofFloat? x = some b) (h : 0 < b.exponent) :
    ∃ s m hm, x.toModel.unpack = .finite s m b.exponent hm ∧ 2 ^ 52 ≤ m ∧ m < 2 ^ 53 ∧
      b.exponent ≤ 971 := by
  have hleading : Binary.leadingBit = 2 ^ 52 := rfl
  have hwidth : 0x800 = 2 ^ 11 := rfl
  have hbits : x.toBits.toBitVec.toNat = x.toBits.toNat := rfl
  have hlow : x.toBits.toNat % 2 ^ 52 < 2 ^ 52 := Nat.mod_lt _ (by decide)
  have hbiased : x.toBits.toNat / 2 ^ 52 % 2 ^ 11 < 2 ^ 11 := Nat.mod_lt _ (by decide)
  unfold Binary.ofFloat? at hx
  dsimp only at hx
  rw [hleading, hwidth] at hx
  split_ifs at hx with hones hzero <;> cases hx
  · contradiction
  · dsimp only at h ⊢
    refine ⟨_, _, _, unpack_normal (b := x.toBits.toBitVec) rfl ?_ ?_ rfl, ?_, ?_, ?_⟩ <;> omega

theorem unpack_limit : (1e15 : Float).toModel.unpack =
    .finite .positive (10 ^ 15 * 2 ^ 3) (-3) (by decide) := by
  have hbits : (1e15 : Float) = Float.ofBits 0x430C6BF526340000 := by decide +kernel
  rw [hbits]
  rfl

/-- A double whose last bit is above one is too large for a zero behind its point. -/
theorem not_abs_lt (hx : Binary.ofFloat? x = some b) (h : 0 < b.exponent) : ¬ x.abs < 1e15 := by
  obtain ⟨s, m, hm, hunpack, hlow, hhigh, hmax⟩ := exists_finite_of_exponent_pos hx h
  have habs : x.abs.toModel.unpack = .finite .positive m b.exponent hm := by
    change (Float.Model.pack x.toModel.unpack.abs).unpack = _
    rw [hunpack]
    exact unpack_pack_finite .positive hlow hhigh (by omega) hmax hm
  rw [lt_iff_compare, habs, unpack_limit]
  change ¬ ((some ((compare b.exponent (-3)).then _) == some .lt) = true)
  rw [Int.compare_eq_gt.mpr (by omega)]
  exact Bool.false_ne_true

theorem isInt_limit : IsInt 1e15 (10 ^ 15 : Nat) := by
  have hlimit : (1e15 : Float) = Float.ofNat (10 ^ 15) := by decide +kernel
  rw [hlimit]
  exact stands_ofNat (by decide)

/-- How the magnitude `y` with the integer part `whole` is written: digits with a point are read as
it, and digits alone are those of an integer that it is nearest to. -/
inductive Magnitude (whole : Nat) (y : Float) : List Char → Prop where
  | point {ds fs : List Char} (hds : IsDigits ds) (hfs : IsDigits fs)
      (hvalue : ofParts ds fs = y) (hwhole : whole < 2 ^ 63) : Magnitude whole y (ds ++ '.' :: fs)
  | digits {ds : List Char} (hds : IsDigits ds) (hpositive : 0 < ofDigits ds)
      (hvalue : Float.ofNat (ofDigits ds) = y)
      (hwhole : ofDigits ds < 2 ^ 63 ↔ whole < 2 ^ 63) : Magnitude whole y ds

/-- The parts of a zero with either sign. -/
theorem mantissa_of_zero (hx : Binary.ofFloat? x = some b)
    (hzero : (if b.negative then -0.0 else 0.0) = x) :
    (isIntegral x && x.abs < 1e15) = true ∧ b.mantissa = 0 := by
  have hplus : Binary.ofFloat? 0.0 = some ⟨false, 0, -1074⟩ := by decide +kernel
  have hminus : Binary.ofFloat? (-0.0) = some ⟨true, 0, -1074⟩ := by decide +kernel
  split_ifs at hzero <;> subst hzero
  · cases hminus.symm.trans hx
    decide +kernel
  · cases hplus.symm.trans hx
    decide +kernel

/-- A plain text is read by its digits, and its sign is the sign of the double. -/
theorem unsigned?_decimal (hx : Binary.ofFloat? x = some b)
    (hinverse : ofText? (plainText x) = some x) :
    ∃ y, unsigned? (Layout.plain.decimal (shortest .up b)) = some y ∧
      (if b.negative then -y else y) = x := by
  obtain ⟨c, cs, hdecimal, hc⟩ := Layout.exists_cons_decimal_plain (shortest .up b)
  have htext := toList_plainText hx
  rw [hdecimal] at htext ⊢
  rw [ofText?_signed hc htext] at hinverse
  exact Option.map_eq_some_iff.mp hinverse

/-- The integer that a double below `10 ^ 15` is without its sign. -/
theorem lt_of_abs_lt {n : Nat} {negative : Bool} (hn : n ≤ 2 ^ 53)
    (hx : (if negative then -Float.ofNat n else Float.ofNat n) = x) (h : x.abs < 1e15) :
    n < 10 ^ 15 := by
  have hint : IsInt (Float.ofNat n) n := stands_ofNat hn
  have habs : IsInt x.abs n := by
    split_ifs at hx <;> subst hx
    · simpa using hint.neg.abs
    · simpa using hint.abs
  exact Int.ofNat_lt.mp ((habs.lt isInt_limit).mp h)

theorem unsigned?_zero : unsigned? ['0'] = some 0.0 :=
  unsigned?_digits .zero

section

variable (hx : Binary.ofFloat? x = some b)
  (hread : unsigned? (Layout.plain.decimal (shortest .up b)) = some y)
include hx hread

theorem magnitude_of_zero (hm : b.mantissa = 0) (hsign : (if b.negative then -y else y) = x) :
    Magnitude b.whole y (unsignedLiteral x b) := by
  have hdecimal : Layout.plain.decimal (shortest .up b) = ['0'] := by
    rw [shortest, if_pos hm]
    rfl
  rw [hdecimal, unsigned?_zero] at hread
  obtain rfl := Option.some.inj hread
  rw [unsignedLiteral, hdecimal, (mantissa_of_zero hx hsign).1]
  refine .point .zero .zero (by decide +kernel) ?_
  simp [Binary.whole, hm]

theorem magnitude_of_point (hk : (shortest .up b).exponent < 0)
    (hd : (shortest .up b).digits ≠ 0) (hy : y ≠ 0.0) :
    Magnitude b.whole y (unsignedLiteral x b) := by
  obtain ⟨ds, fs, hds, hfs, hdecimal⟩ := Layout.exists_decimal_plain hk hd
  have hfraction : b.isWhole ≠ true := by
    intro hwhole
    have := exponent_shortest_nonneg hwhole .up
    omega
  have hexponent : b.exponent ≤ 0 := by
    by_contra hpos
    exact hfraction (Binary.isWhole_of_nonneg (by omega))
  have hpart : isIntegral x = false := by
    rw [isIntegral, hx]
    exact Bool.eq_false_iff.mpr hfraction
  have hwhole := Binary.whole_lt_of_nonpos hexponent (Binary.bounds_of_ofFloat? hx).1
  rw [hdecimal, unsigned?_point hds hfs] at hread
  obtain rfl := Option.some.inj hread
  rw [unsignedLiteral, hdecimal, hpart, Bool.false_and, if_neg Bool.false_ne_true, List.append_nil]
  have hcases := ofScaled_neg (n := ofDigits (ds ++ fs)) (List.length_pos_iff.mpr hfs.1)
  exact .point hds hfs (hcases.resolve_left hy).symm (by omega)

theorem magnitude_of_digits (hk : 0 ≤ (shortest .up b).exponent)
    (hd : (shortest .up b).digits ≠ 0) (hsign : (if b.negative then -y else y) = x) :
    Magnitude b.whole y (unsignedLiteral x b) := by
  have hdigits := Layout.isDigits_decimal_plain hk
  have hnatural := Layout.ofDigits_decimal_plain hk
  rw [unsigned?_digits hdigits, ofScaled_zero] at hread
  obtain rfl := Option.some.inj hread
  unfold unsignedLiteral
  split_ifs with hshort
  · have hbelow : x.abs < 1e15 := decide_eq_true_iff.mp (Bool.and_eq_true_iff.mp hshort).2
    have hexponent : b.exponent ≤ 0 := by
      by_contra hpos
      exact not_abs_lt hx (by omega) hbelow
    have hwhole := Binary.whole_lt_of_nonpos hexponent (Binary.bounds_of_ofFloat? hx).1
    have hvalue := hnatural.trans (natural_shortest_eq hexponent hd hk)
    refine .point hdigits .zero ?_ (by omega)
    unfold ofParts
    have htenths := ofDigits_zeros (Layout.plain.decimal (shortest .up b)) 1
    rw [Nat.pow_one, Nat.mul_comm] at htenths
    change Float.ofScientific (ofDigits (_ ++ List.replicate 1 '0')) true 1 = _
    rw [htenths]
    exact ofScientific_tenths (lt_of_abs_lt (by omega) hsign hbelow)
  · rw [List.append_nil]
    refine .digits hdigits ?_ rfl ?_ <;> rw [hnatural]
    · exact Nat.mul_pos (Nat.pos_of_ne_zero hd) (Nat.pow_pos (by decide))
    · exact natural_shortest_lt_iff hx hd hk

end

/-- The literal of a double that is read back from its plain text is read as the double. -/
theorem exists_magnitude (hx : Binary.ofFloat? x = some b)
    (hinverse : ofText? (plainText x) = some x) :
    ∃ cs y, (literalText x).toList = (if b.negative then ['-'] else []) ++ cs ∧
      (if b.negative then -y else y) = x ∧ Magnitude b.whole y cs := by
  obtain ⟨y, hread, hsign⟩ := unsigned?_decimal hx hinverse
  refine ⟨_, y, toList_literalText hx, hsign, ?_⟩
  by_cases hm : b.mantissa = 0
  · exact magnitude_of_zero hx hread hm hsign
  have hy : y ≠ 0.0 := by
    rintro rfl
    exact hm (mantissa_of_zero hx hsign).2
  have hd : (shortest .up b).digits ≠ 0 := by
    intro hd
    rw [Layout.decimal_plain_zero hd, unsigned?_zero] at hread
    exact hy (Option.some.inj hread).symm
  rcases Int.lt_or_le (shortest .up b).exponent 0 with hk | hk
  · exact magnitude_of_point hx hread hk hd hy
  · exact magnitude_of_digits hx hread hk hd hsign

end

end Hologram.Number
