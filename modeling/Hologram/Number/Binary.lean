/-! Finite doubles as signed multiples of powers of two, and the roundings that this form makes
exact: to an integer in three directions, and to a remainder. -/
namespace Hologram.Number

def infinity : Float := 1.0 / 0.0

def missing : Float := 0.0 / 0.0

/-- The number `± mantissa · 2 ^ exponent`. -/
structure Binary where
  negative : Bool
  mantissa : Nat
  exponent : Int
  deriving DecidableEq, Repr

namespace Binary

/-- The leading bit of a normal mantissa, which the bits of a double leave out. -/
def leadingBit : Nat := 0x10000000000000

def signBit : Nat := 0x8000000000000000

def ofFloat? (x : Float) : Option Binary :=
  let bits : Nat := x.toBits.toNat
  let biased : Nat := bits / leadingBit % 0x800
  let fraction : Nat := bits % leadingBit
  let negative := signBit ≤ bits
  if biased = 0x7FF then none
  else if biased = 0 then some ⟨negative, fraction, -1074⟩
  else some ⟨negative, fraction + leadingBit, (biased : Int) - 1075⟩

/-- The double with this value; bits that a double has no room for are dropped. -/
def toFloat (b : Binary) : Float :=
  let last := max (b.exponent + b.mantissa.log2 - 52) (-1074)
  let kept := b.mantissa <<< (b.exponent - last).toNat >>> (last - b.exponent).toNat
  let magnitude := if kept < leadingBit then kept else (last + 1074).toNat * leadingBit + kept
  Float.ofBits (UInt64.ofNat (magnitude + if b.negative then signBit else 0))

def whole (b : Binary) : Nat :=
  b.mantissa <<< b.exponent.toNat >>> (-b.exponent).toNat

/-- Whether nothing is left beside the integer part. -/
def isWhole (b : Binary) : Bool :=
  b.whole <<< (-b.exponent).toNat == b.mantissa <<< b.exponent.toNat

def truncated (b : Binary) : Int :=
  if b.negative then -b.whole else b.whole

/-- The integer with the magnitude `n` and the sign of `b`, which zero keeps as well. -/
def withWhole (b : Binary) (n : Nat) : Float :=
  toFloat ⟨b.negative, n, 0⟩

end Binary

/-- Whether a double is finite and has no fractional part. -/
def isIntegral (x : Float) : Bool :=
  (Binary.ofFloat? x).any (·.isWhole)

/-- Whether a double carries a minus sign, as the negative zero does. -/
def isNegative (x : Float) : Bool :=
  Binary.signBit ≤ x.toBits.toNat

def truncate? (x : Float) : Option Int :=
  (Binary.ofFloat? x).map (·.truncated)

def floor (x : Float) : Float :=
  match Binary.ofFloat? x with
  | none => x
  | some b => b.withWhole (if b.negative && !b.isWhole then b.whole + 1 else b.whole)

def ceil (x : Float) : Float :=
  match Binary.ofFloat? x with
  | none => x
  | some b => b.withWhole (if !b.negative && !b.isWhole then b.whole + 1 else b.whole)

/-- The nearest integer; a half goes away from zero. -/
def round (x : Float) : Float :=
  match Binary.ofFloat? x with
  | none => x
  | some b => b.withWhole (((⟨b.negative, b.mantissa, b.exponent + 1⟩ : Binary).whole + 1) / 2)

/-- What is left of `x` after as many whole `y` as fit between it and zero. -/
def remainder (x y : Float) : Float :=
  match Binary.ofFloat? x, Binary.ofFloat? y with
  | some a, some b =>
    if b.mantissa = 0 then missing
    else
      let unit := min a.exponent b.exponent
      let scaled (c : Binary) : Nat := c.mantissa <<< (c.exponent - unit).toNat
      Binary.toFloat ⟨a.negative, scaled a % scaled b, unit⟩
  | some _, none => if y.isNaN then y else x
  | none, _ => missing

/-- The lesser of two numbers, and of zeros with different signs the second; a missing number gives
way to the other. -/
def least (x y : Float) : Float :=
  if x.isNaN then y else if y.isNaN then x else if x < y then x else y

/-- The greater of two numbers, and of zeros with different signs the second; a missing number gives
way to the other. -/
def greatest (x y : Float) : Float :=
  if x.isNaN then y else if y.isNaN then x else if y < x then x else y

example : (Binary.ofFloat? 1.5).map Binary.toFloat = some 1.5 := by decide +kernel

example : floor (-2.5) = -3.0 ∧ ceil (-0.5) = -0.0 ∧ round 2.5 = 3.0 ∧ round (-0.4) = -0.0 := by
  decide +kernel

example : remainder 5.5 2.0 = 1.5 ∧ remainder (-5.5) 2.0 = -1.5 := by decide +kernel

end Hologram.Number
