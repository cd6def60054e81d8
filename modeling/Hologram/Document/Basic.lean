import Hologram.Json

/-! JSON documents as they are written: members in their places, also those that are repeated, names
with or without escapes, and literals that denote nothing. `Document.value?` asks for the value that
is written. -/
namespace Hologram

structure MemberName where
  text : String
  /-- Whether no character of the name is written as an escape. -/
  isPlain : Bool := true
  deriving BEq, Repr

inductive Document where
  | null
  | bool (value : Bool)
  | int (value : Int)
  | float (value : Float)
  | string (text : String)
  | array (items : List Document)
  | object (members : List (MemberName × Document))
  /-- A literal that denotes nothing, such as a decimal beyond the doubles. -/
  | nothing
  deriving BEq, Repr

namespace Document

/-- How deep the arrays and objects of a document may be nested. -/
def greatestDepth : Nat := 127

mutual

/-- The value that is written, nested at most `depth` levels deep: every literal has to denote
something, and of repeated members the last one holds, in the place of the first. -/
def value? (depth : Nat) : Document → Option Json
  | null => some .null
  | bool value => some (.bool value)
  | int value => some (.int value)
  | float value => some (.float value)
  | string text => some (.string text)
  | array items => if depth = 0 then none else (values? (depth - 1) items).map .array
  | object members =>
    if depth = 0 then none
    else (memberValues? (depth - 1) members).map fun ms => .object (Dictionary.ofEntries ms)
  | nothing => none

def values? (depth : Nat) : List Document → Option (List Json)
  | [] => some []
  | item :: items => do
    let value ← value? depth item
    let values ← values? depth items
    return value :: values

def memberValues? (depth : Nat) : List (MemberName × Document) → Option (List (String × Json))
  | [] => some []
  | (name, item) :: members => do
    let value ← value? depth item
    let values ← memberValues? depth members
    return (name.text, value) :: values

end

mutual

/-- The document that writes a value without escapes in names. -/
def ofJson : Json → Document
  | .null => null
  | .bool value => bool value
  | .int value => int value
  | .float value => float value
  | .string text => string text
  | .array items => array (ofItems items)
  | .object members => object (ofMembers members)

def ofItems : List Json → List Document
  | [] => []
  | item :: items => ofJson item :: ofItems items

def ofMembers : List (String × Json) → List (MemberName × Document)
  | [] => []
  | (text, value) :: members => ({ text }, ofJson value) :: ofMembers members

end

example : (object [({ text := "a" }, null), ({ text := "a" }, bool true)]).value? 1 =
    some (.object [("a", .bool true)]) := by rfl

end Document
end Hologram
