import Hologram.Config.Basic
import Hologram.Structure.Palette
import Hologram.Structure.Upgrade

/-! Structures with a clean palette. Palette entries get their current names and lose those that are
left out, and a voxel of the primary layer whose block has data of its own gets a slot for it. -/
namespace Hologram

/-- A structure with a clean palette. Its layers may refer to slots behind those that were saved. -/
structure Structure where
  name : String
  size : Size
  palette : Palette
  layers : List Layer
  /-- How many palette entries were brought up to date. -/
  upgraded : Nat := 0
  deriving Repr

namespace Structure

/-- The number of each slot when dead slots are taken out. -/
def denseNumbers (slots : List (Option Block)) : List Int :=
  go 0 slots
where
  go (next : Int) : List (Option Block) → List Int
    | [] => []
    | none :: rest => noBlock :: go next rest
    | some _ :: rest => next :: go (next + 1) rest

/-- A reference under new numbers of the slots. -/
def renumber (numbers : Array Int) (reference : Int) : Int :=
  if reference < 0 then noBlock else numbers[reference.toNat]?.getD noBlock

/-- The structure as it would be saved, without dead slots. -/
def toSaved (s : Structure) : SavedStructure where
  name := s.name
  size := s.size
  palette := s.palette.live.map fun (_, block) => SavedBlock.ofBlock block
  layers :=
    let numbers := (denseNumbers s.palette.slots.toList).toArray
    s.layers.map fun layer => layer.map (renumber numbers)

end Structure

namespace SavedBlock

/-- The namespace of the game itself, which names go without. -/
def gameNamespace : List Char := "minecraft:".toList

/-- A block name without the namespace of the game. -/
def shortName (name : String) : String :=
  match gameNamespace.isPrefixOf? name.toList with
  | some rest => String.ofList rest
  | none => name

/-- The clean form of the palette entry with a given number, or nothing when it is left out. -/
def cleaned (config : Config) (upgrader : Upgrader) (b : SavedBlock) (entry : Nat) :
    Except PackError (Option Block) := do
  if b.name.isEmpty then throw (.unnamedBlock entry)
  let b ← upgrader.updateIfOutdated b
  let name := shortName b.name
  if config.ignoresBlock name then return none
  return some ⟨name, b.states, b.entityData⟩

end SavedBlock

/-- What changes while voxels get slots for their data. -/
structure Folding where
  palette : Palette
  primary : Layer
  /-- The slots that were added, under the keys of their blocks. -/
  variants : Dictionary Nat := []
  /-- The slots that voxels were moved away from. -/
  bases : List Nat := []

namespace Folding

/-- The data of an entity that tell blocks apart: all but the position. -/
def essential (data : Dictionary Json) : Dictionary Json :=
  ["x", "y", "z"].foldl Dictionary.erase data

def isIgnored (config : Config) (data : Dictionary Json) : Bool :=
  match data.get? "id" with
  | some (.string id) => config.ignoresEntity id
  | _ => false

/-- The slot of a variant, which is added when no equal one was added before. -/
def slotOf (f : Folding) (variant : Block) : Nat × Folding :=
  match f.variants.get? variant.key with
  | some slot => (slot, f)
  | none =>
    let (slot, palette) := f.palette.append (some variant)
    (slot, { f with palette, variants := (variant.key, slot) :: f.variants })

def move (f : Folding) (offset base : Nat) (variant : Block) : Folding :=
  let (slot, f) := f.slotOf variant
  { f with primary := f.primary.setIfInBounds offset slot, bases := base :: f.bases }

def add (config : Config) (f : Folding) (entry : Nat × Option (Dictionary Json)) : Folding :=
  let moved? : Option Folding := do
    let reference ← f.primary[entry.1]?
    let base ← f.palette.get? reference
    let data ← entry.2
    if isIgnored config data then none
    else return f.move entry.1 reference.toNat (base.withEntityData (essential data))
  moved?.getD f

end Folding

namespace Structure

def uses (layers : List Layer) (slot : Nat) : Bool :=
  layers.any fun layer => layer.contains (slot : Int)

/-- The first layer that has not one reference for each voxel, with its number. -/
def oddLayer? (size : Size) (layers : List Layer) : Option (Layer × Nat) :=
  layers.zipIdx.find? fun entry => entry.1.size != size.voxelCount

/-- The clean palette of saved blocks. The first entry that is in error decides. -/
def cleanPalette (config : Config) (upgrader : Upgrader) (blocks : List SavedBlock) :
    Except PackError Palette := do
  let slots ← blocks.zipIdx.mapM fun (entry : SavedBlock × Nat) =>
    entry.1.cleaned config upgrader entry.2
  return ⟨slots.toArray⟩

/-- The versions of saved blocks, each once and in ascending order. -/
def versions (blocks : List SavedBlock) : List Int :=
  let sorted := (blocks.filterMap (·.version)).mergeSort
  sorted.foldr (fun version rest => version :: rest.dropWhile (· == version)) []

/-- The report of how many blocks were brought up to date, if any were. -/
def upgradeReport (upgrader : Upgrader) (blocks : List SavedBlock) (upgraded : Nat) : List Report :=
  if upgraded = 0 then []
  else [.upgraded upgraded ((versions blocks).map versionText) (versionText upgrader.latest)]

/-- A saved structure with a clean palette, and what there is to report. Slots that voxels were
moved away from die unless other voxels refer to them. -/
def ofSaved (config : Config) (upgrader : Upgrader) (s : SavedStructure) :
    Except PackError (Structure × List Report) := do
  match s.layers with
  | [] => throw (.noLayers s.name)
  | primary :: others =>
    if let some (layer, number) := oddLayer? s.size s.layers then
      throw (.layerLength number s.name layer.size s.size)
    let palette ← cleanPalette config upgrader s.palette
    let upgraded := s.palette.countP upgrader.isOutdated
    let folded := s.payloads.entries.foldl (Folding.add config) { palette, primary }
    let layers := folded.primary :: others
    let bases := (List.range folded.palette.size).filter folded.bases.contains
    let (kept, retired) := bases.partition (uses layers)
    let strays := (s.payloads.entries.map (·.1)).filter (primary.size ≤ ·)
    let reports := upgradeReport upgrader s.palette upgraded ++ strays.map .strayPayload ++
      kept.map fun slot => .keptSlot slot s.name
    return (⟨s.name, s.size, retired.foldl Palette.bury folded.palette, layers, upgraded⟩, reports)

end Structure
end Hologram
