import Hologram.Structure.Normal

/-! One palette for several structures. Equal blocks share a slot, and the first structure that has
a block decides where. A lone structure keeps its palette as it is. -/
namespace Hologram

/-- Structures with a palette in common. -/
structure Assembly where
  palette : Palette
  /-- For each structure its layers, which refer to the palette or to no block. -/
  structures : List (List Layer)
  /-- The live slots that no voxel refers to, in ascending order. -/
  unused : List Nat
  deriving Repr

namespace Assembly

/-- A palette without equal blocks, and the slots under the keys of their blocks. -/
structure Index where
  palette : Palette := {}
  slots : Dictionary Nat := []

namespace Index

/-- The slot of a block, which is added when no equal one is there. -/
def slotOf (index : Index) (block : Block) : Nat × Index :=
  match index.slots.get? block.key with
  | some slot => (slot, index)
  | none =>
    let (slot, palette) := index.palette.append (some block)
    (slot, ⟨palette, (block.key, slot) :: index.slots⟩)

/-- For each slot of a palette the slot with the same block. -/
def slotsOf (index : Index) : List (Option Block) → List Int × Index
  | [] => ([], index)
  | none :: rest =>
    let (numbers, index) := index.slotsOf rest
    (noBlock :: numbers, index)
  | some block :: rest =>
    let (slot, index) := index.slotOf block
    let (numbers, index) := index.slotsOf rest
    (slot :: numbers, index)

end Index

/-- Structures whose palettes are united, behind a palette that is there already. -/
def unite (index : Index) : List Structure → Index × List (List Layer) × List Report
  | [] => (index, [], [])
  | s :: rest =>
    let (numbers, index) := index.slotsOf s.palette.slots.toList
    let numbers := numbers.toArray
    let layers := s.layers.map fun layer => layer.map (Structure.renumber numbers)
    let report := .mergedStructure s.name numbers.size index.palette.size
    let (index, structures, reports) := unite index rest
    (index, layers :: structures, report :: reports)

/-- The layers of a lone structure, where what names no live slot refers to no block. -/
def ownLayers (s : Structure) : List Layer :=
  s.layers.map fun layer => layer.map fun reference =>
    if s.palette.isLive reference then reference else noBlock

def mark (marks : Array Bool) (reference : Int) : Array Bool :=
  if reference < 0 then marks else marks.setIfInBounds reference.toNat true

/-- For each slot of a palette of some size whether a voxel refers to it. -/
def marksOf (size : Nat) (structures : List (List Layer)) : Array Bool :=
  structures.flatten.foldl (fun marks layer => layer.foldl mark marks) (Array.replicate size false)

def unusedSlots (palette : Palette) (structures : List (List Layer)) : List Nat :=
  let marks := marksOf palette.size structures
  (palette.live.map (·.1)).filter fun slot => !marks[slot]?.getD false

/-- Structures brought under one palette, and what there is to report. -/
def ofStructures (structures : List Structure) : Assembly × List Report :=
  let (palette, layers, reports) := match structures with
    | [single] => (single.palette, [ownLayers single], [])
    | structures =>
      let (index, layers, reports) := unite {} structures
      (index.palette, layers, reports)
  let unused := unusedSlots palette layers
  let unusedReports := unused.filterMap fun slot =>
    (palette.block? slot).map (Report.unusedSlot slot)
  (⟨palette, layers, unused⟩, reports ++ unusedReports)

end Assembly
end Hologram
