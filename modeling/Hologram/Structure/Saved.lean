import Hologram.Structure.Block
import Hologram.Structure.Size

/-! Structures as they are saved: palette entries of any game version, layers of references, and
data of entities at single voxels. -/
namespace Hologram

structure SavedBlock where
  name : String
  states : Dictionary Json := []
  /-- The game version that saved the block, one byte for each of its parts. -/
  version : Option Int := none
  entityData : Option (Dictionary Json) := none
  deriving Repr

namespace SavedBlock

def ofBlock (b : Block) : SavedBlock :=
  ⟨b.name, b.states, none, b.entityData⟩

/-- A saved block with one more state, or another value of a state that it has. -/
def withState (b : SavedBlock) (name : String) (value : Json) : SavedBlock :=
  { b with states := Dictionary.insert b.states name value }

/-- A saved block in a document. Only the version and the data may be left out. -/
def toJson (b : SavedBlock) : Json :=
  .object <|
    [("name", .string b.name), ("states", .object b.states)] ++
      (b.version.map fun version => ("version", Json.int version)).toList ++
      (b.entityData.map fun data => ("block_entity_data", Json.object data)).toList

def fields : List String :=
  ["name", "states", "version", "block_entity_data"]

def ofDocument? (depth : Nat) (d : Document) : Option SavedBlock := do
  let record ← d.record? fields
  let name ← Document.required? record "name" Document.toText?
  let states ← Document.optional? record "states" [] (Document.toMembers? (depth - 1))
  let version ← Document.optional? record "version" none (Document.toNullable? Document.toInt32?)
  let entityData ← Document.optional? record "block_entity_data" none
    (Document.toNullable? (Document.toMembers? (depth - 1)))
  return ⟨name, states, version, entityData⟩

end SavedBlock

/-- What is saved for single voxels, under their offsets: the data of an entity, or none. -/
structure Payloads where
  entries : List (Nat × Option (Dictionary Json)) := []
  /-- The offsets ascend, so that no voxel has two entries. -/
  ascending : entries.Pairwise (fun a b => a.1 < b.1) := by exact List.Pairwise.nil
  deriving Repr

namespace Payloads

def empty : Payloads := {}

/-- Entries with ascending offsets together with one more, unless its voxel has one already. -/
def add (entry : Nat × Option (Dictionary Json)) :
    List (Nat × Option (Dictionary Json)) → List (Nat × Option (Dictionary Json))
  | [] => [entry]
  | first :: rest =>
    if entry.1 < first.1 then entry :: first :: rest
    else if entry.1 = first.1 then first :: rest
    else first :: add entry rest

/-- What is added keeps its place or is left out. -/
theorem mem_of_mem_add {entry other : Nat × Option (Dictionary Json)}
    {entries : List (Nat × Option (Dictionary Json))} (h : other ∈ add entry entries) :
    other = entry ∨ other ∈ entries := by
  fun_induction add entry entries with
  | case1 => simpa using h
  | case2 => simpa using h
  | case3 => exact .inr h
  | case4 first rest _ _ ih =>
    rcases List.mem_cons.1 h with rfl | h
    · simp
    · rcases ih h with h | h <;> simp [h]

theorem ascending_add {entry : Nat × Option (Dictionary Json)}
    {entries : List (Nat × Option (Dictionary Json))}
    (h : entries.Pairwise (fun a b => a.1 < b.1)) :
    (add entry entries).Pairwise (fun a b => a.1 < b.1) := by
  fun_induction add entry entries with
  | case1 => simp
  | case2 first rest hlt =>
    refine List.pairwise_cons.2 ⟨fun other hother => ?_, h⟩
    rcases List.mem_cons.1 hother with rfl | hother
    · exact hlt
    · exact Nat.lt_trans hlt (List.rel_of_pairwise_cons h hother)
  | case3 => exact h
  | case4 first rest hlt hne ih =>
    refine List.pairwise_cons.2 ⟨fun other hother => ?_, ih (List.pairwise_cons.1 h).2⟩
    rcases mem_of_mem_add hother with rfl | hother
    · omega
    · exact List.rel_of_pairwise_cons h hother

/-- The payloads of entries in any order, of which the last holds where a voxel has several. -/
def ofEntries (entries : List (Nat × Option (Dictionary Json))) : Payloads :=
  entries.foldr
    (fun entry payloads => ⟨add entry payloads.entries, ascending_add payloads.ascending⟩) empty

/-- The offset that a name spells: digits of a number of 64 bits, none of them written as an escape
and without needless zeros. -/
def offset? (name : MemberName) : Option Nat :=
  let digits := name.text.toList
  let value := Number.ofDigits digits
  let isNumeral := !digits.isEmpty && digits.all Char.isDigit &&
    (digits.head? != some '0' || digits.length == 1)
  if name.isPlain && isNumeral && value < Number.Width.bits64.count then some value else none

/-- The entry of one voxel in a document, nested at most `depth` levels deep. -/
def entryOfDocument? (depth : Nat) (d : Document) : Option (Option (Dictionary Json)) := do
  let record ← d.record? ["block_entity_data"]
  Document.optional? record "block_entity_data" none
    (Document.toNullable? (Document.toMembers? (depth - 1)))

def ofDocument? (depth : Nat) : Document → Option Payloads
  | .object members => do
    let entries ← members.mapM fun (member : MemberName × Document) => do
      let offset ← offset? member.1
      let entry ← entryOfDocument? (depth - 1) member.2
      return (offset, entry)
    return ofEntries entries
  | _ => none

def entryToJson (data : Option (Dictionary Json)) : Json :=
  .object (data.map fun data => ("block_entity_data", Json.object data)).toList

def toJson (payloads : Payloads) : Json :=
  .object (payloads.entries.map fun (offset, data) => (toString offset, entryToJson data))

end Payloads

structure SavedStructure where
  name : String := ""
  size : Size
  palette : List SavedBlock
  /-- The first layer is the primary one. -/
  layers : List Layer
  payloads : Payloads := .empty
  deriving Repr

namespace SavedStructure

def toJson (s : SavedStructure) : Json :=
  .object [
    ("name", .string s.name),
    ("size", s.size.toJson),
    ("palette", .array (s.palette.map SavedBlock.toJson)),
    ("block_indices", .array (s.layers.map Layer.toJson)),
    ("block_position_data", s.payloads.toJson)]

def fields : List String :=
  ["name", "size", "palette", "block_indices", "block_position_data"]

def ofDocument? (depth : Nat) (d : Document) : Option SavedStructure := do
  let record ← d.record? fields
  let name ← Document.optional? record "name" "" Document.toText?
  let size ← Document.required? record "size" Size.ofDocument?
  let palette ← Document.required? record "palette"
    (Document.toList? (SavedBlock.ofDocument? (depth - 2)))
  let layers ← Document.required? record "block_indices" (Document.toList? Layer.ofDocument?)
  let payloads ← Document.optional? record "block_position_data" .empty
    (Payloads.ofDocument? (depth - 1))
  return ⟨name, size, palette, layers, payloads⟩

def ofText? (text : String) : Option SavedStructure := do
  ofDocument? Document.greatestDepth (← Document.read? text)

end SavedStructure

/-- A document that holds one structure or a list of them. -/
inductive StructureFile where
  | many (structures : List SavedStructure)
  | one (single : SavedStructure)
  deriving Repr

namespace StructureFile

def structures : StructureFile → List SavedStructure
  | many structures => structures
  | one single => [single]

/-- A structure in a document of this kind, where voxels cannot have payloads. -/
def structureOfDocument? (d : Document) : Option SavedStructure := do
  let s ← SavedStructure.ofDocument? Document.greatestDepth d
  if s.payloads.entries.isEmpty then some s else none

/-- The structures that the text of a document gives. The document is read as a whole before it is
taken apart, so nothing in it may be out of bounds, not even in fields that are not known. -/
def ofText? (text : String) : Option StructureFile := do
  let document ← Document.read? text
  let _ ← document.value? Document.greatestDepth
  match document.toList? structureOfDocument? with
  | some structures => return many structures
  | none => return one (← structureOfDocument? document)

end StructureFile
end Hologram
