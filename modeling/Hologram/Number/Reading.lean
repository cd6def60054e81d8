import Hologram.Number.Binary

/-! Reading decimal numbers. Every text is rounded once, to the nearest double. -/
namespace Hologram.Number

def ofDigits (ds : List Char) : Nat :=
  ds.foldl (fun n d => 10 * n + (d.toNat - '0'.toNat)) 0

/-- The double nearest to the number with the given digits before and after its point. -/
def ofParts (whole fraction : List Char) : Float :=
  Float.ofScientific (ofDigits (whole ++ fraction)) true fraction.length

/-- The double nearest to `mantissa · 10 ^ exponent`. Powers beyond every double are cut short
first. -/
def ofScaled (mantissa : Nat) (exponent : Int) : Float :=
  if mantissa = 0 then 0.0
  else if 400 < exponent then infinity
  else if exponent < -((mantissa.log2 : Int) + 400) then 0.0
  else Float.ofScientific mantissa (exponent < 0) exponent.natAbs

/-- A signed run of digits that is not empty. -/
def signed? (cs : List Char) : Option Int :=
  let digits? (ds : List Char) : Option Int :=
    if ds.isEmpty || !ds.all Char.isDigit then none else some (ofDigits ds)
  match cs with
  | '-' :: ds => (digits? ds).map (- ·)
  | '+' :: ds => digits? ds
  | ds => digits? ds

/-- A decimal number without a sign: digits with at most one point, and possibly an exponent. -/
def unsigned? (cs : List Char) : Option Float :=
  let whole := cs.takeWhile Char.isDigit
  let afterWhole := cs.dropWhile Char.isDigit
  let (fraction, rest) := match afterWhole with
    | '.' :: r => (r.takeWhile Char.isDigit, r.dropWhile Char.isDigit)
    | r => ([], r)
  let exponent? : Option Int := match rest with
    | [] => some 0
    | c :: r => if c = 'e' ∨ c = 'E' then signed? r else none
  if whole.isEmpty && fraction.isEmpty then none
  else exponent?.map fun e => ofScaled (ofDigits (whole ++ fraction)) (e - fraction.length)

/-- The number that a text names: a decimal number, an infinity or the missing number, each with an
optional sign. -/
def ofText? (text : String) : Option Float :=
  let magnitude? (cs : List Char) : Option Float :=
    let name := String.ofList (cs.map Char.toLower)
    if name = "inf" ∨ name = "infinity" then some infinity
    else if name = "nan" then some missing
    else unsigned? cs
  match text.toList with
  | '-' :: cs => (magnitude? cs).map (- ·)
  | '+' :: cs => magnitude? cs
  | cs => magnitude? cs

example : ofParts "12".toList "50".toList = 12.5 := by decide +kernel

example : ofText? "-1.5e3" = some (-1500.0) ∧ ofText? "1e" = none := by decide +kernel

end Hologram.Number
