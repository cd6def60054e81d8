import Hologram.Config.Control
import Hologram.Script.Lookup
import Hologram.Structure.Size

/-! The settings of a pack. -/
namespace Hologram

structure Config where
  /-- Names of blocks to leave out, besides those that are always left out. -/
  ignoredBlocks : List String
  /-- Kinds of block entities whose data do not tell blocks apart. -/
  ignoredBlockEntities : List String
  /-- The scale of blocks outside the selected layer. -/
  miniScale : Float
  initialOffset : Position
  backupSlotCount : Nat
  /-- The greatest number of entries in one chain of a table in the scripts. -/
  arraySplitThreshold : Nat
  /-- Items for controls, where they differ from the default. -/
  controls : List (Control × ItemCriteria)
  validationParticleNamespace : String
  deriving Repr

namespace Config

def alwaysIgnored : List String :=
  ["air", "piston_arm_collision", "sticky_piston_arm_collision"]

/-- The kinds of block entities that are left out unless others are chosen. -/
def defaultIgnoredEntities : List String :=
  ["Beacon", "Beehive", "Bell", "BrewingStand", "ChiseledBookshelf", "CommandBlock", "Comparator",
    "Conduit", "EnchantTable", "EndGateway", "JigsawBlock", "Lodestone", "SculkCatalyst",
    "SculkShrieker", "SculkSensor", "CalibratedSculkSensor", "StructureBlock", "BrushableBlock",
    "TrialSpawner", "Vault"]

/-- The settings that hold where none are given. -/
def standard : Config where
  ignoredBlocks := []
  ignoredBlockEntities := defaultIgnoredEntities
  miniScale := 0.125
  initialOffset := ⟨0, 0, 0⟩
  backupSlotCount := 10
  arraySplitThreshold := Script.Lookup.defaultThreshold
  controls := []
  validationParticleNamespace := "hololab"

def ignoresBlock (config : Config) (name : String) : Bool :=
  alwaysIgnored.contains name || config.ignoredBlocks.contains name

def ignoresEntity (config : Config) (id : String) : Bool :=
  config.ignoredBlockEntities.contains id

def criteria (config : Config) (control : Control) : ItemCriteria :=
  (config.controls.lookup control).getD control.defaultCriteria

def toJson (config : Config) : Json :=
  let given (control : Control) : Option (String × Json) :=
    (config.controls.lookup control).map fun criteria => (control.name, criteria.toJson)
  .object [
    ("ignored_blocks", .ofStrings config.ignoredBlocks),
    ("ignored_block_entities", .ofStrings config.ignoredBlockEntities),
    ("mini_scale", .float config.miniScale),
    ("initial_offset", .array
      [.int config.initialOffset.x, .int config.initialOffset.y, .int config.initialOffset.z]),
    ("backup_slot_count", .ofNat config.backupSlotCount),
    ("array_split_threshold", .ofNat config.arraySplitThreshold),
    ("controls", .object (Control.all.filterMap given)),
    ("validation_particle_namespace", .string config.validationParticleNamespace)]

def fields : List String :=
  ["ignored_blocks", "ignored_block_entities", "mini_scale", "initial_offset", "backup_slot_count",
    "array_split_threshold", "controls", "validation_particle_namespace"]

/-- The offset that a document gives as a list of three integers. -/
def offsetOfDocument? (d : Document) : Option Position :=
  match d.toList? Document.toInt32? with
  | some [x, y, z] => some ⟨x, y, z⟩
  | _ => none

def controlsOfDocument? (d : Document) : Option (List (Control × ItemCriteria)) := do
  let entries ← d.toDictionary? ItemCriteria.ofDocument?
  entries.mapM fun (entry : String × ItemCriteria) =>
    (Control.ofName? entry.1).map fun control => (control, entry.2)

/-- The settings that a document gives. Those that are missing have their standard values. -/
def ofDocument? (d : Document) : Option Config := do
  let record ← d.record? fields
  let ignoredBlocks ← Document.optional? record "ignored_blocks" standard.ignoredBlocks
    (Document.toList? Document.toText?)
  let ignoredBlockEntities ← Document.optional? record "ignored_block_entities"
    standard.ignoredBlockEntities (Document.toList? Document.toText?)
  let miniScale ← Document.optional? record "mini_scale" standard.miniScale Document.toFloat?
  let initialOffset ← Document.optional? record "initial_offset" standard.initialOffset
    offsetOfDocument?
  let backupSlotCount ← Document.optional? record "backup_slot_count" standard.backupSlotCount
    (Document.toNat? .bits32)
  let arraySplitThreshold ← Document.optional? record "array_split_threshold"
    standard.arraySplitThreshold (Document.toNat? .bits64)
  let controls ← Document.optional? record "controls" standard.controls controlsOfDocument?
  let validationParticleNamespace ← Document.optional? record "validation_particle_namespace"
    standard.validationParticleNamespace Document.toText?
  return ⟨ignoredBlocks, ignoredBlockEntities, miniScale, initialOffset, backupSlotCount,
    arraySplitThreshold, controls, validationParticleNamespace⟩

def ofText? (text : String) : Option Config := do
  ofDocument? (← Document.read? text)

end Config
end Hologram
