import Hologram.Pack.BoundingBox
import Hologram.Pack.EntityScript
import Hologram.Pack.Selection
import Hologram.Pack.Skeleton
import Hologram.Pack.Validation
import Hologram.Structure.Assembly

/-! Packs: all that is made from some structures. The structures are cleaned and brought under one
palette, and the bones, animations, controllers and scripts follow from that palette. -/
namespace Hologram

structure Pack where
  palette : Palette
  /-- For each structure its layers, which refer to the palette or to no block. -/
  structures : List (List Layer)
  sizes : List Size
  animations : List Animation
  /-- The template bones, then the bones of voxels. -/
  bones : List Bone
  /-- The places of validation particles under their names. -/
  locators : Dictionary (List Float)
  controllers : Dictionary Controller
  scripts : EntityScripts
  /-- The full names of particles under their short names. -/
  particles : Dictionary String
  /-- The live slots that no voxel refers to. -/
  unused : List Nat

/-- A computation that may fail and that reports in either case. -/
abbrev Reporting := ExceptT PackError (StateM (List Report))

namespace Reporting

def report (reports : List Report) : Reporting Unit :=
  modify (· ++ reports)

def outcome {α : Type} (computation : Reporting α) : Except PackError α × List Report :=
  computation.run.run []

end Reporting

namespace Pack

open Reporting (report)

def validationController : String := "controller.animation.armor_stand.hologram.block_validation"

def boundingBoxController : String := "controller.animation.armor_stand.hologram.bounding_box"

def selectionController : String := "controller.animation.armor_stand.hologram.structures"

/-- The particle that shows that a backup is saved. -/
def backupParticle : String := "saving_backup"

/-- The place of the particle of a block: the centre of the block on the ground. -/
def locatorOf (b : ValidatedBlock) : List Float :=
  [8.0 - 16.0 * Float.ofInt b.position.x, 16.0 * Float.ofInt b.position.y,
    -8.0 + 16.0 * Float.ofInt b.position.z]

def locatorsOf (validations : List Validation) : Dictionary (List Float) :=
  Dictionary.collected <| validations.flatMap fun v =>
    v.blocks.map fun b => (b.locator, locatorOf b)

def particlesOf (space : String) (validations : List Validation) : Dictionary String :=
  let blocks := validations.flatMap fun v =>
    v.blocks.map fun b => Validation.particleShortName b.block
  let shortNames := BoundingBox.particle :: backupParticle :: blocks
  Dictionary.collected <| shortNames.map fun name => (name, Validation.particleName space name)

def controllersOf (space : String) (sizes : List Size) (validations : List Validation) :
    Dictionary Controller :=
  [(validationController, Validation.controller space (sizes.zip validations)),
    (boundingBoxController, BoundingBox.controller sizes),
    (selectionController, Selection.controller sizes.length)]

def cleanAll (config : Config) (upgrader : Upgrader) :
    List SavedStructure → Reporting (List Structure)
  | [] => return []
  | saved :: rest => do
    let (s, reports) ← ExceptT.mk (pure (Structure.ofSaved config upgrader saved))
    report reports
    let others ← cleanAll config upgrader rest
    return s :: others

def make (config : Config) (upgrader : Upgrader) (saved : List SavedStructure) :
    Reporting Pack := do
  if saved.isEmpty then throw .noStructures
  let structures ← cleanAll config upgrader saved
  let (assembly, reports) := Assembly.ofStructures structures
  report reports
  let palette := assembly.palette
  if palette.liveCount = 0 then throw .noBlocks
  report [.mergedAll structures.length palette.size]
  let sizes := structures.map (·.size)
  let rows := List.zipWith (fun size layers => Placement.rows size palette layers) sizes
    assembly.structures
  let validations := rows.map Validation.ofRows
  let skeleton := Skeleton.ofRows rows
  report skeleton.reports.toList
  let bones := templateBones palette ++ skeleton.bones.toList
  let scripts ← ExceptT.mk (pure (EntityScripts.ofStructures config sizes validations))
  report [.built sizes.length palette.liveCount bones.length
    (validations.flatMap (·.blocks)).length
    (structures.foldl (fun upgraded s => upgraded + s.upgraded) 0)]
  return {
    palette
    structures := assembly.structures
    sizes
    animations := rows.zipIdx.map fun (rows, index) => Animation.ofRows index config.miniScale rows
    bones
    locators := locatorsOf validations
    controllers := controllersOf config.validationParticleNamespace sizes validations
    scripts
    particles := particlesOf config.validationParticleNamespace validations
    unused := assembly.unused }

end Pack
end Hologram
