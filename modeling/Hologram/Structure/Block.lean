import Hologram.Document.Record

/-! Blocks, and the keys by which blocks are told apart. -/
namespace Hologram

/-- A kind of block: its name, its states, and the data of the entity inside, if it has one. -/
structure Block where
  name : String
  states : Dictionary Json := []
  entityData : Option (Dictionary Json) := none
  deriving Repr

namespace Block

/-- The members of the document of a block. States that are not there and data that are missing
leave no member behind. -/
def members (b : Block) : List (String × Json) :=
  [("name", .string b.name)] ++
    (if b.states.isEmpty then [] else [("states", .object b.states)]) ++
    (b.entityData.map fun data => ("block_entity_data", Json.object data)).toList

def toJson (b : Block) : Json :=
  .object b.members

/-- The text that tells a block from all others. The order in which states and data were given has
no part in it. -/
def key (b : Block) : String :=
  Json.objectText (b.members.map fun (name, value) => (name, value.canonicalText))

/-- Two blocks are one kind of block when their names and their keys agree. -/
instance : BEq Block where
  beq a b := a.name == b.name && a.key == b.key

/-- A block with one more state, or another value of a state that it has. -/
def withState (b : Block) (name : String) (value : Json) : Block :=
  { b with states := Dictionary.insert b.states name value }

def withEntityData (b : Block) (data : Dictionary Json) : Block :=
  { b with entityData := some data }

def fields : List String :=
  ["name", "states", "block_entity_data"]

def ofDocument? (depth : Nat) (d : Document) : Option Block := do
  let record ← d.record? fields
  let name ← Document.required? record "name" Document.toText?
  let states ← Document.optional? record "states" [] (Document.toMembers? (depth - 1))
  let entityData ← Document.optional? record "block_entity_data" none
    (Document.toNullable? (Document.toMembers? (depth - 1)))
  return ⟨name, states, entityData⟩

@[simp] theorem name_withEntityData (b : Block) (data : Dictionary Json) :
    (b.withEntityData data).name = b.name := rfl

@[simp] theorem entityData_withEntityData (b : Block) (data : Dictionary Json) :
    (b.withEntityData data).entityData = some data := rfl

example : key ⟨"a", [("y", .int 1), ("x", .null)], none⟩ =
    "\x7b\"name\":\"a\",\"states\":\x7b\"x\":null,\"y\":1\x7d\x7d" := by cbv

end Block
end Hologram
