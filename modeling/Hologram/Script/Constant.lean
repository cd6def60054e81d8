import Hologram.Dictionary
import Hologram.Number.Layout
import Hologram.Number.Reading
import Hologram.Number.Width

/-! Values that are known while a script is compiled. -/
namespace Hologram.Script

/-- A value that a placeholder may stand for. -/
inductive Constant where
  | int (value : Int)
  | float (value : Float)
  /-- No number, with a minus sign. -/
  | indefinite
  | bool (value : Bool)
  /-- Code that replaces the placeholder as it is. -/
  | code (text : String)
  | sequence (items : List Constant)
  | mapping (fields : List (String × Constant))
  deriving BEq, Repr

namespace Constant

def toFloat? : Constant → Option Float
  | int value => some (Float.ofInt value)
  | float value => some value
  | indefinite => some Number.missing
  | _ => none

def isMissing (value : Constant) : Bool :=
  value.toFloat?.any Float.isNaN

/-- An integral number as the nearest integer of 64 bits. -/
def wholeOf? (x : Float) : Option Int :=
  if Number.isIntegral x then
    (Number.truncate? x).map Number.Width.bits64.saturate
  else none

/-- The value as an integer, if it is an integral number. -/
def toInt? : Constant → Option Int
  | int value => some value
  | float value => wholeOf? value
  | _ => none

/-- Whether the value has no parts. -/
def isScalar : Constant → Bool
  | sequence _ | mapping _ => false
  | _ => true

def kind : Constant → String
  | int _ => "int"
  | float _ | indefinite => "float"
  | bool _ => "bool"
  | code _ => "expression"
  | sequence _ => "sequence"
  | mapping _ => "mapping"

def boolText (b : Bool) : String :=
  if b then "true" else "false"

mutual

def text : Constant → String
  | int value => toString value
  | float value => Number.plainText value
  | indefinite => Number.plainText Number.missing
  | bool value => boolText value
  | code text => text
  | sequence items => "[" ++ ", ".intercalate (texts items) ++ "]"
  | mapping fields => "\x7b" ++ ", ".intercalate (fieldTexts fields) ++ "\x7d"

def texts : List Constant → List String
  | [] => []
  | item :: items => text item :: texts items

def fieldTexts : List (String × Constant) → List String
  | [] => []
  | (key, value) :: fields => (key ++ ": " ++ text value) :: fieldTexts fields

end

/-- The fields of a mapping in any order, of which the last holds where a name occurs again. -/
def ofFields (fields : List (String × Constant)) : Constant :=
  mapping (Dictionary.collected fields)

/-- A number of 64 bits without a sign. The upper half of them turns negative. -/
def ofWord (n : Nat) : Constant :=
  int (Number.Width.bits64.signed n)

/-- The number that a text names. What is no number keeps the minus sign before it. -/
def ofNumberText? (text : String) : Option Constant :=
  (Number.ofText? text).map fun x =>
    if x.isNaN && text.toList.head? == some '-' then indefinite else float x

example : (ofNumberText? "-NaN").any (· matches indefinite) ∧
    (ofNumberText? "+nan").any (· matches float _) := by
  decide +kernel

def ofSingle (x : Float32) : Constant :=
  float x.toFloat

end Constant

/-- The values that placeholders stand for during one compilation. -/
abbrev Bindings := Dictionary Constant

end Hologram.Script
