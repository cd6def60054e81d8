import Hologram.Number.Binary

/-! The fewest decimal digits that read back as a given double. A double stands for every real
number that rounds to it; the coarsest decimal grid with a point in that interval fixes the number
of digits, and of two such points the nearer one is taken. A value halfway between the two goes to
the upper or to the even one, as its reader expects. -/
namespace Hologram.Number

/-- The number `digits · 10 ^ exponent`. -/
structure Decimal where
  digits : Nat
  exponent : Int
  deriving DecidableEq, Repr

/-- A positive double with the ends of its rounding interval, all in quarters of its last bit. -/
structure Interval where
  lower : Nat
  value : Nat
  upper : Nat
  closed : Bool
  exponent : Int
  deriving Repr

/-- Which of two points a value halfway between them goes to. -/
inductive Halfway where
  | up
  | even
  deriving DecidableEq, Repr

/-- Whether a value halfway between `below` and the next point goes to the next. -/
def Halfway.passes : Halfway → Nat → Bool
  | up, _ => true
  | even, below => below % 2 = 1

namespace Interval

/-- The reals that round to `mantissa · 2 ^ exponent`. Below a power of two the neighbours are twice
as close, and the ends belong to the interval when the mantissa is even. -/
def ofBinary (mantissa : Nat) (exponent : Int) : Interval :=
  { lower := 4 * mantissa - if mantissa = Binary.leadingBit ∧ -1074 < exponent then 1 else 2
    value := 4 * mantissa
    upper := 4 * mantissa + 2
    closed := mantissa % 2 = 0
    exponent := exponent - 2 }

/-- The point of the grid `10 ^ k` that lies in the interval and is nearest to the value. -/
def point? (i : Interval) (halfway : Halfway) (k : Int) : Option Nat :=
  let scale := Nat.pow 10 (-k).toNat <<< i.exponent.toNat
  let step := Nat.pow 10 k.toNat <<< (-i.exponent).toNat
  let inside (d : Nat) : Bool :=
    if i.closed then i.lower * scale ≤ d * step && d * step ≤ i.upper * scale
    else i.lower * scale < d * step && d * step < i.upper * scale
  let below := i.value * scale / step
  let middle := (2 * below + 1) * step
  let prefersAbove :=
    middle < 2 * (i.value * scale) || (middle = 2 * (i.value * scale) && halfway.passes below)
  if inside below && !(inside (below + 1) && prefersAbove) then some below
  else if inside (below + 1) then some (below + 1)
  else none

/-- An exponent whose power of ten is above the value. -/
def ceiling (i : Interval) : Int :=
  (i.exponent + i.value.log2 + 1) * 30103 / 100000 + 1

/-- The point on the coarsest grid that has one. Seventeen digits always suffice, so the search
below the ceiling ends within twenty-five grids. -/
def shortest (i : Interval) (halfway : Halfway) : Decimal :=
  let grids := (List.range 25).map fun (n : Nat) => i.ceiling - n
  (grids.findSome? fun k => (i.point? halfway k).map fun d => ⟨d, k⟩).getD ⟨0, 0⟩

end Interval

def shortest (halfway : Halfway) (b : Binary) : Decimal :=
  if b.mantissa = 0 then ⟨0, 0⟩ else (Interval.ofBinary b.mantissa b.exponent).shortest halfway

example : (Binary.ofFloat? 0.1).map (shortest .up) = some ⟨1, -1⟩ := by decide +kernel

example : (Binary.ofFloat? 5e-324).map (shortest .up) = some ⟨5, -324⟩ := by decide +kernel

example : (Binary.ofFloat? 1.7976931348623157e308).map (shortest .up) =
    some ⟨17976931348623157, 292⟩ := by decide +kernel

example : (Binary.ofFloat? 2.98023223876953125e-8).map (shortest .up) =
      some ⟨29802322387695313, -24⟩ ∧
    (Binary.ofFloat? 2.98023223876953125e-8).map (shortest .even) =
      some ⟨29802322387695312, -24⟩ := by decide +kernel

end Hologram.Number
