import Hologram.Proofs.Number.Digits
import Mathlib.Data.List.Basic
import Mathlib.Tactic.Ring
import Mathlib.Tactic.SplitIfs

/-! The texts of numbers as literals. A whole number is on the grid of the whole numbers, which is
as fine as its shortest digits ever are, so that it is written without a point, and the point that a
literal adds is its only one. -/
namespace Hologram.Number

namespace Interval

variable {m : Nat} {e : Int}

/-- Of two neighbours, of which the lower one is inside, one is taken. -/
theorem isSome_nearer {inside next prefersNext : Bool} (h : inside = true) (below : Nat) :
    (if inside && !(next && prefersNext) then some below
      else if next then some (below + 1) else none).isSome = true := by
  cases next <;> cases prefersNext <;> simp [h]

/-- A value on the grid of the whole numbers has a point there. -/
theorem isSome_point?_zero (hm : m ≠ 0) (h : 2 ^ (2 - e).toNat ∣ 4 * m * 2 ^ (e - 2).toNat)
    (halfway : Halfway) : ((ofBinary m e).point? halfway 0).isSome = true := by
  obtain ⟨below, hbelow⟩ := h
  have hstep : 0 < 2 ^ (2 - e).toNat := Nat.two_pow_pos _
  have hscale : 0 < 2 ^ (e - 2).toNat := Nat.two_pow_pos _
  have hlower : (ofBinary m e).lower < 4 * m := by
    dsimp only [ofBinary]
    split_ifs <;> omega
  unfold point?
  simp only [ofBinary, Int.neg_zero, Int.toNat_zero, Nat.pow_zero, Nat.shiftLeft_eq, Nat.one_mul,
    Int.neg_sub, Nat.pow_eq] at hlower ⊢
  refine isSome_nearer ?_ _
  rw [hbelow, Nat.mul_div_cancel_left _ hstep, Nat.mul_comm below, ← hbelow]
  generalize (4 * m - if m = Binary.leadingBit ∧ -1074 < e then 1 else 2) = lower at hlower ⊢
  split_ifs
  · simp only [Bool.and_eq_true, decide_eq_true_eq]
    exact ⟨Nat.mul_le_mul_right _ (Nat.le_of_lt hlower), Nat.mul_le_mul_right _ (by omega)⟩
  · simp only [Bool.and_eq_true, decide_eq_true_eq]
    exact ⟨Nat.mul_lt_mul_of_pos_right hlower hscale,
      Nat.mul_lt_mul_of_pos_right (by omega) hscale⟩

/-- The power of ten above a value that is at least one is at least one itself. -/
theorem ceiling_nonneg (hm : m ≠ 0) (h : 0 ≤ e + m.log2) : 0 ≤ (ofBinary m e).ceiling := by
  have hlog : (4 * m).log2 = m.log2 + 2 := by
    rw [show 4 * m = 2 * (2 * m) by omega, Nat.log2_two_mul (by omega), Nat.log2_two_mul hm]
  simp only [ceiling, ofBinary, hlog]
  omega

/-- The grids are tried from coarse to fine, so none finer than the whole numbers is taken when they
have a point. -/
theorem exponent_shortest_nonneg {i : Interval} {halfway : Halfway}
    (h : (i.point? halfway 0).isSome = true) (hceiling : 0 ≤ i.ceiling) :
    0 ≤ (i.shortest halfway).exponent := by
  have hgrids : ((List.range 25).map fun (n : Nat) => i.ceiling - n).Pairwise (· > ·) := by
    rw [List.pairwise_map]
    exact List.pairwise_lt_range.imp fun hlt => by omega
  have hwhole : 0 ∈ (List.range 25).map (fun (n : Nat) => i.ceiling - n) ∨
      ∀ k ∈ (List.range 25).map (fun (n : Nat) => i.ceiling - n), 0 ≤ k := by
    by_cases hnear : i.ceiling < 25
    · exact .inl (List.mem_map.mpr ⟨i.ceiling.toNat, List.mem_range.mpr (by omega), by omega⟩)
    · refine .inr fun k hk => ?_
      obtain ⟨n, hn, rfl⟩ := List.mem_map.mp hk
      have hlt := List.mem_range.mp hn
      omega
  unfold shortest
  dsimp only
  generalize (List.range 25).map (fun (n : Nat) => i.ceiling - n) = grids at hgrids hwhole
  induction grids with
  | nil => exact Int.le_refl 0
  | cons k grids ih =>
    obtain ⟨hfiner, hgrids⟩ := List.pairwise_cons.mp hgrids
    rw [List.findSome?_cons]
    cases hpoint : i.point? halfway k with
    | some d =>
      change 0 ≤ k
      rcases hwhole with hmem | hall
      · rcases List.mem_cons.mp hmem with rfl | hmem
        · exact Int.le_refl 0
        · exact Int.le_of_lt (hfiner 0 hmem)
      · exact hall k (.head _)
    | none =>
      refine ih hgrids ?_
      rcases hwhole with hmem | hall
      · rcases List.mem_cons.mp hmem with rfl | hmem
        · rw [hpoint] at h
          contradiction
        · exact .inl hmem
      · exact .inr fun k' hk' => hall k' (.tail _ hk')

end Interval

namespace Binary

variable {b : Binary}

/-- A mantissa of a whole number holds all the places behind the point. -/
theorem exists_mantissa_of_isWhole (h : b.isWhole = true) (hexponent : b.exponent < 0) :
    ∃ n, b.mantissa = n * 2 ^ (-b.exponent).toNat := by
  have hnone : b.exponent.toNat = 0 := by omega
  unfold isWhole at h
  rw [beq_iff_eq, hnone, Nat.shiftLeft_zero, Nat.shiftLeft_eq] at h
  exact ⟨b.whole, h.symm⟩

/-- A whole number that is not zero is at least one. -/
theorem log2_nonneg_of_isWhole (h : b.isWhole = true) (hm : b.mantissa ≠ 0) :
    0 ≤ b.exponent + b.mantissa.log2 := by
  by_cases hexponent : b.exponent < 0
  · obtain ⟨n, hn⟩ := exists_mantissa_of_isWhole h hexponent
    have hpos : 0 < n := Nat.pos_of_ne_zero fun hzero => hm (by rw [hn, hzero, Nat.zero_mul])
    have hle : 2 ^ (-b.exponent).toNat ≤ b.mantissa := by
      rw [hn]
      exact Nat.le_mul_of_pos_left _ hpos
    have hlog := (Nat.le_log2 hm).mpr hle
    omega
  · omega

theorem dvd_of_isWhole (h : b.isWhole = true) :
    2 ^ (2 - b.exponent).toNat ∣ 4 * b.mantissa * 2 ^ (b.exponent - 2).toNat := by
  by_cases hexponent : b.exponent < 0
  · obtain ⟨n, hn⟩ := exists_mantissa_of_isWhole h hexponent
    refine ⟨n, ?_⟩
    rw [hn, show (2 - b.exponent).toNat = 2 + (-b.exponent).toNat by omega,
      show (b.exponent - 2).toNat = 0 by omega, Nat.pow_add]
    ring
  · have hdvd : 2 ^ (2 - b.exponent).toNat ∣ 2 ^ 2 := Nat.pow_dvd_pow 2 (by omega)
    rw [Nat.mul_assoc]
    exact Nat.dvd_mul_right_of_dvd hdvd _

end Binary

/-- The shortest digits of a whole number end at its point or before. -/
theorem exponent_shortest_nonneg {b : Binary} (h : b.isWhole = true) (halfway : Halfway) :
    0 ≤ (shortest halfway b).exponent := by
  unfold shortest
  split_ifs with hm
  · exact Int.le_refl 0
  · exact Interval.exponent_shortest_nonneg
      (Interval.isSome_point?_zero hm (Binary.dvd_of_isWhole h) halfway)
      (Interval.ceiling_nonneg hm (Binary.log2_nonneg_of_isWhole h hm))

/-- One or more digits. -/
def IsDigits (cs : List Char) : Prop :=
  cs ≠ [] ∧ ∀ c ∈ cs, c.isDigit = true

/-- The texts of numbers without their signs. -/
inductive Numeral : List Char → Prop where
  | whole {ds : List Char} (hds : IsDigits ds) : Numeral ds
  | point {ds fs : List Char} (hds : IsDigits ds) (hfs : IsDigits fs) : Numeral (ds ++ '.' :: fs)
  | infinite : Numeral "inf".toList
  | missing : Numeral "NaN".toList

/-- A numeral begins with a digit or a letter. -/
theorem Numeral.head?_ne {c : Char} (hc : c.isAlphanum = false) {cs : List Char} (h : Numeral cs) :
    cs.head? ≠ some c := by
  have hdigits {ds : List Char} (hds : IsDigits ds) : ds.head? ≠ some c := by
    intro hhead
    have hdigit := hds.2 c (List.mem_of_mem_head? hhead)
    simp [Char.isAlphanum, hdigit] at hc
  cases h with
  | whole hds => exact hdigits hds
  | point hds =>
    rw [List.head?_append_of_ne_nil _ hds.1]
    exact hdigits hds
  | infinite | missing =>
    rintro ⟨⟩
    contradiction

namespace IsDigits

variable {ds : List Char}

theorem zeros (n : Nat) : ∀ c ∈ List.replicate n '0', c.isDigit = true := by
  intro c hc
  rw [List.eq_of_mem_replicate hc]
  rfl

theorem zero : IsDigits ['0'] :=
  ⟨List.cons_ne_nil _ _, zeros 1⟩

theorem append_zeros (h : IsDigits ds) (n : Nat) : IsDigits (ds ++ List.replicate n '0') :=
  ⟨List.append_ne_nil_of_left_ne_nil h.1 _, List.forall_mem_append.mpr ⟨h.2, zeros n⟩⟩

theorem digits (n : Nat) : IsDigits (Layout.digits n) :=
  ⟨Nat.toDigits_ne_nil, fun _ hc => Nat.isDigit_of_mem_toDigits (by decide) (by decide) hc⟩

end IsDigits

namespace Layout

variable {ds : List Char} {place : Int}

/-- Digits that end before the point are filled up with zeros. -/
theorem positioned_plain_eq (hplace : (ds.length : Int) ≤ place + 1) (hds : ds ≠ []) :
    plain.positioned ds place = ds ++ List.replicate (place + 1 - ds.length).toNat '0' := by
  have hnonneg : ¬ place < 0 := by
    have hpos := List.length_pos_iff.mpr hds
    omega
  unfold positioned
  dsimp only
  rw [if_neg hnonneg, List.drop_of_length_le (by omega), List.take_of_length_le (by omega),
    show (place + 1 - ds.length).toNat = place.toNat + 1 - ds.length by omega]
  rfl

theorem positioned_plain_whole (hplace : (ds.length : Int) ≤ place + 1) (hds : IsDigits ds) :
    IsDigits (plain.positioned ds place) := by
  rw [positioned_plain_eq hplace hds.1]
  exact hds.append_zeros _

/-- Digits that do not end before the point have it among them or behind a zero. -/
theorem exists_positioned_plain (hplace : place + 1 < ds.length) (hds : IsDigits ds) :
    ∃ ws fs, IsDigits ws ∧ IsDigits fs ∧ plain.positioned ds place = ws ++ '.' :: fs := by
  by_cases hneg : place < 0
  · unfold positioned
    rw [if_pos hneg]
    refine ⟨['0'], _, .zero, ⟨?_, ?_⟩, rfl⟩
    · exact List.append_ne_nil_of_right_ne_nil _ hds.1
    · exact List.forall_mem_append.mpr ⟨IsDigits.zeros _, hds.2⟩
  · have hrest : IsDigits (ds.drop (place.toNat + 1)) :=
      ⟨by rw [ne_eq, List.drop_eq_nil_iff]; omega, fun c hc => hds.2 c (List.mem_of_mem_drop hc)⟩
    have hfirst : IsDigits (ds.take (place.toNat + 1)) :=
      ⟨by simpa using hds.1, fun c hc => hds.2 c (List.mem_of_mem_take hc)⟩
    unfold positioned
    dsimp only
    rw [if_neg hneg]
    split
    · exact absurd ‹_› hrest.1
    · exact ⟨_, _, hfirst.append_zeros _, hrest, rfl⟩

theorem numeral_positioned_plain (hds : IsDigits ds) : Numeral (plain.positioned ds place) := by
  by_cases hplace : (ds.length : Int) ≤ place + 1
  · exact .whole (positioned_plain_whole hplace hds)
  · obtain ⟨ws, fs, hws, hfs, heq⟩ := exists_positioned_plain (Int.not_le.mp hplace) hds
    rw [heq]
    exact .point hws hfs

theorem numeral_decimal_plain (d : Decimal) : Numeral (plain.decimal d) := by
  unfold decimal
  dsimp only
  split_ifs with hzero
  · exact numeral_positioned_plain .zero
  · exact numeral_positioned_plain (.digits _)
  · exact absurd rfl ‹_›

theorem isDigits_decimal_plain {d : Decimal} (h : 0 ≤ d.exponent) : IsDigits (plain.decimal d) := by
  unfold decimal
  dsimp only
  split_ifs with hzero
  · exact positioned_plain_whole (by decide) .zero
  · exact positioned_plain_whole (by omega) (.digits _)
  · exact absurd rfl ‹_›

end Layout

theorem toList_plainText {x : Float} {b : Binary} (hx : Binary.ofFloat? x = some b) :
    (plainText x).toList =
      (if b.negative then ['-'] else []) ++ Layout.plain.decimal (shortest .up b) := by
  unfold plainText Layout.write
  rw [hx]
  dsimp only
  split_ifs
  · rw [String.toList_append]
    exact congrArg ('-' :: ·) String.toList_ofList
  · exact String.toList_ofList

def unsignedLiteral (x : Float) (b : Binary) : List Char :=
  Layout.plain.decimal (shortest .up b) ++ if isIntegral x && x.abs < 1e15 then ['.', '0'] else []

theorem toList_literalText {x : Float} {b : Binary} (hx : Binary.ofFloat? x = some b) :
    (literalText x).toList = (if b.negative then ['-'] else []) ++ unsignedLiteral x b := by
  unfold literalText unsignedLiteral
  split_ifs with hwhole hnegative hnegative <;>
    simp [toList_plainText hx, hnegative, String.toList_append]

theorem numeral_unsignedLiteral {x : Float} {b : Binary} (hx : Binary.ofFloat? x = some b) :
    Numeral (unsignedLiteral x b) := by
  unfold unsignedLiteral
  split_ifs with hwhole
  · have hb : b.isWhole = true := by
      have hintegral := (Bool.and_eq_true_iff.mp hwhole).1
      rwa [isIntegral, hx] at hintegral
    exact .point (Layout.isDigits_decimal_plain (exponent_shortest_nonneg hb .up)) .zero
  · rw [List.append_nil]
    exact Layout.numeral_decimal_plain _

/-- A literal is a numeral behind its sign, if it has one. -/
theorem numeral_literalText (x : Float) : ∃ cs, Numeral cs ∧
    ((literalText x).toList = cs ∨ (literalText x).toList = '-' :: cs) := by
  cases hx : Binary.ofFloat? x with
  | none =>
    have hplain : literalText x = plainText x := by
      unfold literalText isIntegral
      rw [hx]
      rfl
    rw [hplain]
    unfold plainText Layout.write
    rw [hx]
    dsimp only
    split_ifs
    · exact ⟨_, .missing, .inl rfl⟩
    · exact ⟨_, .infinite, .inr rfl⟩
    · exact ⟨_, .infinite, .inl rfl⟩
  | some b =>
    refine ⟨_, numeral_unsignedLiteral hx, ?_⟩
    have htext := toList_literalText hx
    split_ifs at htext
    · exact .inr htext
    · exact .inl htext

end Hologram.Number
