import Hologram.Number.Shortest

/-! The three ways in which numbers are written: plainly in code, in messages, and in documents. All
three show the shortest digits. They differ in where they turn to an exponent and in the last digit
of a value that is halfway between two shortest decimals. -/
namespace Hologram.Number

structure Layout where
  /-- Whether a number whose leading digit has this place is written without an exponent. -/
  positional : Int → Bool
  /-- Whether a whole number keeps a zero after the point. -/
  fraction : Bool
  /-- Whether a positive exponent has a sign. -/
  plus : Bool
  /-- Which of two shortest decimals is written when both are equally near. -/
  halfway : Halfway

namespace Layout

/-- Code never uses an exponent. -/
def plain : Layout := ⟨fun _ => true, false, false, .up⟩

/-- Messages use an exponent below `10 ^ -4` and from `10 ^ 16`. -/
def message : Layout := ⟨fun place => -4 ≤ place && place ≤ 15, true, false, .up⟩

/-- Documents use an exponent below `10 ^ -5` and from `10 ^ 16`, and prefer an even last digit. -/
def document : Layout := ⟨fun place => -5 ≤ place && place ≤ 15, true, true, .even⟩

def digits (n : Nat) : List Char :=
  Nat.toDigits 10 n

/-- Digits with the point after the first `place + 1` of them, filled up with zeros. -/
def positioned (l : Layout) (ds : List Char) (place : Int) : List Char :=
  if place < 0 then '0' :: '.' :: (List.replicate (-place - 1).toNat '0' ++ ds)
  else
    let count := place.toNat + 1
    let whole := ds.take count ++ List.replicate (count - ds.length) '0'
    match ds.drop count with
    | [] => if l.fraction then whole ++ ['.', '0'] else whole
    | rest => whole ++ '.' :: rest

/-- Digits with the point after the first of them and an exponent. -/
def scientific (l : Layout) (ds : List Char) (place : Int) : List Char :=
  let sign := if place < 0 then ['-'] else if l.plus then ['+'] else []
  let point := if ds.length ≤ 1 then [] else ['.']
  ds.take 1 ++ point ++ ds.drop 1 ++ 'e' :: sign ++ digits place.natAbs

def decimal (l : Layout) (d : Decimal) : List Char :=
  let ds := digits d.digits
  let place := d.exponent + ds.length - 1
  if d.digits = 0 then l.positioned ['0'] 0
  else if l.positional place then l.positioned ds place
  else l.scientific ds place

def write (l : Layout) (x : Float) : String :=
  match Binary.ofFloat? x with
  | none => if x.isNaN then "NaN" else if isNegative x then "-inf" else "inf"
  | some b =>
    let text := String.ofList (l.decimal (shortest l.halfway b))
    if b.negative then "-" ++ text else text

end Layout

def plainText (x : Float) : String :=
  Layout.plain.write x

/-- A number as a literal of the script language: a whole number below `10 ^ 15` shows a zero after
the point. -/
def literalText (x : Float) : String :=
  if isIntegral x && x.abs < 1e15 then plainText x ++ ".0" else plainText x

example : plainText 1e21 = "1000000000000000000000" ∧ plainText (-0.0) = "-0" := by decide +kernel

example : Layout.message.write 1e16 = "1e16" ∧ Layout.message.write 0.00015 = "0.00015" := by
  decide +kernel

example : Layout.document.write 1.5e-6 = "1.5e-6" ∧ Layout.document.write 1e16 = "1e+16" := by
  decide +kernel

example : plainText 917003443089127.25 = "917003443089127.3" ∧
    Layout.document.write 917003443089127.25 = "917003443089127.2" ∧
    Layout.document.write 917003443089127.75 = "917003443089127.8" := by
  decide +kernel

example : literalText 2.0 = "2.0" ∧ literalText 1e15 = "1000000000000000" := by decide +kernel

end Hologram.Number
