import Hologram.Number.Layout
import Mathlib.Data.List.TakeWhile

/-! Numbers inside a longer text: the digits of a number end where a character follows that is no
digit, so that the text tells the number and what comes after it. -/
namespace Hologram.Number

/-- Characters that do not go on with the digits before them. -/
def EndsDigits (rest : List Char) : Prop :=
  ∀ c, rest.head? = some c → c.isDigit = false

theorem endsDigits_nil : EndsDigits [] := by
  rintro c ⟨⟩

theorem EndsDigits.cons {c : Char} (h : c.isDigit = false) (cs : List Char) :
    EndsDigits (c :: cs) := by
  rintro d ⟨⟩
  exact h

theorem takeWhile_toDigits_append (n : Nat) {rest : List Char} (h : EndsDigits rest) :
    (Nat.toDigits 10 n ++ rest).takeWhile Char.isDigit = Nat.toDigits 10 n := by
  have hdigits : ∀ c ∈ Nat.toDigits 10 n, c.isDigit = true := fun c hc =>
    Nat.isDigit_of_mem_toDigits (by decide) (by decide) hc
  rw [List.takeWhile_append_of_pos hdigits]
  cases rest with
  | nil => simp
  | cons c rest => simp [h c rfl]

theorem toDigits_append_inj {m n : Nat} {x y : List Char} (hx : EndsDigits x) (hy : EndsDigits y)
    (h : Nat.toDigits 10 m ++ x = Nat.toDigits 10 n ++ y) : m = n ∧ x = y := by
  have hdigits : Nat.toDigits 10 m = Nat.toDigits 10 n := by
    rw [← takeWhile_toDigits_append m hx, h, takeWhile_toDigits_append n hy]
  refine ⟨?_, List.append_cancel_left (hdigits ▸ h)⟩
  rw [← Nat.ofDigitChars_ten_toDigits (n := m), hdigits, Nat.ofDigitChars_ten_toDigits]

theorem toList_toString_nat (n : Nat) : (toString n).toList = Nat.toDigits 10 n := by
  rw [Nat.toString_eq_ofList_toDigits, String.toList_ofList]

/-- The text of a natural number tells it, whatever comes after its digits. -/
theorem toString_nat_append_inj {m n : Nat} {x y : List Char} (hx : EndsDigits x)
    (hy : EndsDigits y) (h : (toString m).toList ++ x = (toString n).toList ++ y) :
    m = n ∧ x = y := by
  rw [toList_toString_nat, toList_toString_nat] at h
  exact toDigits_append_inj hx hy h

/-- Names that are numbered behind a common part tell the number. -/
theorem numbered_inj {base : String} {m n : Nat} (h : base ++ toString m = base ++ toString n) :
    m = n := by
  have hlist := congrArg String.toList h
  rw [String.toList_append, String.toList_append] at hlist
  exact (toString_nat_append_inj endsDigits_nil endsDigits_nil
    (congrArg (· ++ []) (List.append_cancel_left hlist))).1

theorem exists_cons_toDigits (n : Nat) :
    ∃ c cs, Nat.toDigits 10 n = c :: cs ∧ c.isDigit = true := by
  obtain ⟨c, cs, h⟩ := List.exists_cons_of_ne_nil (Nat.toDigits_ne_nil (n := n) (b := 10))
  exact ⟨c, cs, h, Nat.isDigit_of_mem_toDigits (by decide) (by decide) (h ▸ List.mem_cons_self)⟩

/-- An integer begins with a digit or with a minus sign before one. -/
theorem toList_toString_int (n : Int) : (toString n).toList =
    (if n < 0 then ['-'] else []) ++ Nat.toDigits 10 n.natAbs := by
  cases n with
  | ofNat n => 
    have : ¬ Int.ofNat n < 0 := by simp
    rw [if_neg this]
    exact toList_toString_nat n
  | negSucc n =>
    have : Int.negSucc n < 0 := by omega
    rw [if_pos this]
    change ("-" ++ toString (n + 1)).toList = _
    rw [String.toList_append, toList_toString_nat]
    rfl

theorem isDigit_or_minus_of_mem {n : Int} {c : Char} (h : c ∈ (toString n).toList) :
    (c.isDigit || c == '-') = true := by
  rw [toList_toString_int, List.mem_append] at h
  rcases h with h | h
  · split_ifs at h
    · rw [List.mem_singleton.mp h]
      rfl
    · contradiction
  · rw [Nat.isDigit_of_mem_toDigits (by decide) (by decide) h, Bool.true_or]

/-- The text of an integer tells it, whatever comes after its digits. -/
theorem toString_int_append_inj {m n : Int} {x y : List Char} (hx : EndsDigits x)
    (hy : EndsDigits y) (h : (toString m).toList ++ x = (toString n).toList ++ y) :
    m = n ∧ x = y := by
  rw [toList_toString_int, toList_toString_int] at h
  obtain ⟨c, cs, hc, hcd⟩ := exists_cons_toDigits m.natAbs
  obtain ⟨d, ds, hd, hdd⟩ := exists_cons_toDigits n.natAbs
  by_cases hm : m < 0 <;> by_cases hn : n < 0
  · simp only [hm, hn, if_true, List.cons_append, List.nil_append, List.cons.injEq, true_and] at h
    obtain ⟨habs, hxy⟩ := toDigits_append_inj hx hy h
    exact ⟨by omega, hxy⟩
  · simp [hm, hn, hd] at h
    obtain ⟨rfl, -⟩ := h
    contradiction
  · simp [hm, hn, hc] at h
    obtain ⟨rfl, -⟩ := h
    contradiction
  · simp only [hm, hn, if_false, List.nil_append] at h
    obtain ⟨habs, hxy⟩ := toDigits_append_inj hx hy h
    exact ⟨by omega, hxy⟩

end Hologram.Number
