/-! Whole numbers of a fixed width. A width has a number of values; read without a sign they begin
at zero, read with a sign the upper half of them is negative. -/
namespace Hologram.Number

inductive Width where
  | bits8
  | bits32
  | bits64
  deriving DecidableEq, Repr

namespace Width

def count : Width → Nat
  | bits8 => 0x100
  | bits32 => 0x100000000
  | bits64 => 0x10000000000000000

/-- The values of the upper half, and with a sign those below zero. -/
def half (w : Width) : Nat :=
  w.count / 2

def least (w : Width) : Int :=
  -w.half

def greatest (w : Width) : Int :=
  w.half - 1

def holds (w : Width) (n : Int) : Bool :=
  w.least ≤ n && n ≤ w.greatest

/-- The number with a sign that is nearest to an integer. -/
def saturate (w : Width) (n : Int) : Int :=
  max w.least (min w.greatest n)

/-- A number without a sign, read with one. Bits beyond the width are dropped. -/
def signed (w : Width) (n : Nat) : Int :=
  if n % w.count < w.half then (n % w.count : Nat) else (n % w.count : Nat) - w.count

/-- There is one more number below zero than above. -/
theorem least_eq (w : Width) : w.least = -w.greatest - 1 := by
  simp only [least, greatest]
  omega

theorem holds_iff {w : Width} {n : Int} : w.holds n = true ↔ w.least ≤ n ∧ n ≤ w.greatest := by
  simp [holds]

/-- What saturation gives has the width. -/
theorem holds_saturate (w : Width) (n : Int) : w.holds (w.saturate n) = true := by
  rw [holds_iff]
  cases w <;> simp only [saturate, least, greatest, half, count] <;> omega

/-- A number that has the width is its own nearest one. -/
theorem saturate_of_holds {w : Width} {n : Int} (h : w.holds n = true) : w.saturate n = n := by
  rw [holds_iff] at h
  simp only [saturate]
  omega

/-- The lower half reads alike with and without a sign. -/
theorem signed_of_lt_half {w : Width} {n : Nat} (h : n < w.half) : w.signed n = n := by
  cases w <;> simp only [signed, half, count] at h ⊢ <;> omega

example : bits32.signed 0xFFFFFFFF = -1 ∧ bits64.least = -0x8000000000000000 := by decide

end Width

end Hologram.Number
