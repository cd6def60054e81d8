import Hologram.Structure.Block
import Hologram.Structure.Size
import Hologram.Text.Quoted

/-! Why there is no pack for some structures, and what is reported while one is made. -/
namespace Hologram

/-- Why there is no pack for some structures. -/
inductive PackError where
  | noStructures
  | noLayers (structureName : String)
  | layerLength (layer : Nat) (structureName : String) (found : Nat) (size : Size)
  | unnamedBlock (entry : Nat)
  | endlessRenames (blockName : String)
  | noBlocks
  | noScripts
  deriving DecidableEq, Repr

namespace PackError

def message : PackError → String
  | noStructures => "No structure files were given."
  | noLayers name => "structure " ++ Text.quoted name ++ " has no block layers"
  | layerLength layer name found size =>
    "layer " ++ toString layer ++ " of structure " ++ Text.quoted name ++ " has " ++
      toString found ++ " entries, expected " ++ toString size.voxelCount ++ " for size " ++
      size.text
  | unnamedBlock entry => "palette entry " ++ toString entry ++ " is malformed: block has no name"
  | endlessRenames name =>
    "could not upgrade block " ++ name ++ ": rename table contains a cycle"
  | noBlocks => "Structure is empty! No blocks are inside the structure."
  | noScripts => "no structures to write scripts for"

end PackError

inductive Level where
  | debug
  | info
  | warning
  deriving DecidableEq, Repr

namespace Level

def name : Level → String
  | debug => "DEBUG"
  | info => "INFO"
  | warning => "WARN"

end Level

inductive Report where
  | upgraded (count : Nat) (versions : List String) (latest : String)
  | strayPayload (offset : Nat)
  | keptSlot (slot : Nat) (structureName : String)
  | mergedStructure (structureName : String) (localSlots mergedSlots : Nat)
  | unusedSlot (slot : Nat) (block : Block)
  | mergedAll (structures slots : Nat)
  | keptParent (bone parent : String) (structureIndex : Nat)
  | built (structures slots bones validated updated : Nat)
  deriving Repr

namespace Report

def plural (count : Nat) : String :=
  if 1 < count then "s" else ""

def level : Report → Level
  | upgraded .. => .info
  | strayPayload .. => .debug
  | keptSlot .. => .debug
  | mergedStructure .. => .debug
  | unusedSlot .. => .warning
  | mergedAll .. => .debug
  | keptParent .. => .warning
  | built .. => .info

def message : Report → String
  | upgraded count versions latest =>
    "Updated " ++ toString count ++ " block" ++ plural count ++ " from " ++
      ", ".intercalate versions ++ " to " ++ latest
  | strayPayload offset =>
    "ignoring block position data for voxel " ++ toString offset ++ " outside the structure"
  | keptSlot slot name =>
    "keeping palette slot " ++ toString slot ++ " of " ++ Text.quoted name ++
      ", voxels still use it without block entity data"
  | mergedStructure name localSlots mergedSlots =>
    "merged palette of " ++ Text.quoted name ++ ": " ++ toString localSlots ++ " local slots, " ++
      toString mergedSlots ++ " merged so far"
  | unusedSlot slot block =>
    "palette entry " ++ toString slot ++ " (" ++ block.key ++ ") is not used by any voxel"
  | mergedAll structures slots =>
    "merged " ++ toString structures ++ " structure palettes into " ++ toString slots ++ " entries"
  | keptParent bone parent index =>
    "bone " ++ bone ++ " of structure " ++ toString index ++ " keeps parent " ++ parent ++
      " from an earlier structure"
  | built structures slots bones validated updated =>
    "Built hologram of " ++ toString structures ++ " structure" ++ plural structures ++ ": " ++
      toString slots ++ " palette entries, " ++ toString bones ++ " bones, " ++
      toString validated ++ " blocks to validate, " ++ toString updated ++ " upgraded"

def line (report : Report) : String :=
  report.level.name ++ " " ++ report.message

end Report
end Hologram
