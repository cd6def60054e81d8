import Hologram.Document.Reader

/-! Records in documents. A record is an object with known fields, or an array that lists the values
of the fields in their order. Fields that are not known do not count, whatever they hold. -/
namespace Hologram.Document

/-- What a document gives for each field of a record. No field may be given twice, and an array may
not be longer than the list of the fields. -/
def record? (fields : List String) : Document → Option (Dictionary Document)
  | array items => if items.length ≤ fields.length then some (fields.zip items) else none
  | object members =>
    let known := members.filter fun member => fields.contains member.1.text
    if (known.map fun member => member.1.text).Nodup then
      some (known.map fun member => (member.1.text, member.2))
    else none
  | _ => none

def required? {α : Type} (record : Dictionary Document) (field : String)
    (decode : Document → Option α) : Option α :=
  (record.get? field).bind decode

def optional? {α : Type} (record : Dictionary Document) (field : String) (absent : α)
    (decode : Document → Option α) : Option α :=
  match record.get? field with
  | some value => decode value
  | none => some absent

def toText? : Document → Option String
  | string text => some text
  | _ => none

def toBool? : Document → Option Bool
  | bool value => some value
  | _ => none

/-- An integer between two others. -/
def toInt? (least greatest : Int) : Document → Option Int
  | int value => if least ≤ value ∧ value ≤ greatest then some value else none
  | _ => none

/-- A number of a width, without a sign. -/
def toNat? (width : Number.Width) (d : Document) : Option Nat :=
  (toInt? 0 (width.count - 1) d).map Int.toNat

def toInt32? : Document → Option Int :=
  toInt? Number.Width.bits32.least Number.Width.bits32.greatest

/-- A number, whole or not. -/
def toFloat? : Document → Option Float
  | int value => some (Float.ofInt value)
  | float value => some value
  | _ => none

def toList? {α : Type} (decode : Document → Option α) : Document → Option (List α)
  | array items => items.mapM decode
  | _ => none

/-- Values of one kind under names, of which the last holds where a name occurs again. -/
def toDictionary? {α : Type} (decode : Document → Option α) : Document → Option (Dictionary α)
  | object members =>
    let entries? := members.mapM fun (member : MemberName × Document) =>
      (decode member.2).map fun value => (member.1.text, value)
    entries?.map Dictionary.ofEntries
  | _ => none

/-- A value or an explicit absence. -/
def toNullable? {α : Type} (decode : Document → Option α) : Document → Option (Option α)
  | null => some none
  | d => (decode d).map some

/-- The members of an object without known fields, nested at most `depth` levels deep. -/
def toMembers? (depth : Nat) (d : Document) : Option (Dictionary Json) :=
  match d.value? depth with
  | some (.object members) => some members
  | _ => none

example : record? ["a", "b"]
    (object [({ text := "b" }, null), ({ text := "c" }, null), ({ text := "c" }, null)]) =
    some [("b", null)] := by rfl

example : record? ["a", "b"] (array [null]) = some [("a", null)] := by rfl

end Hologram.Document
