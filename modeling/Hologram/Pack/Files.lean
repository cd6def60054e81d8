import Hologram.Pack.Basic

/-! The files of a pack, as paths inside the pack with their contents. -/
namespace Hologram

structure PackFile where
  path : String
  content : Json
  deriving Repr

namespace PackFile

def text (file : PackFile) : String :=
  file.content.pretty

end PackFile

namespace Pack

def animationFile (a : Animation) : PackFile :=
  ⟨"animations/" ++ animationShortName a.index ++ ".json", a.toJson⟩

def controllersToJson (p : Pack) : Json :=
  .object [
    ("format_version", .string "1.10.0"),
    ("animation_controllers",
      .object (p.controllers.sorted.map fun (name, controller) => (name, controller.toJson)))]

def locatorsToJson (p : Pack) : Json :=
  .object (p.locators.map fun (name, place) => (name, numbersToJson place))

/-- The bones in a document, together with the root and the bone that holds the particles. -/
def geometryToJson (p : Pack) : Json :=
  let root : Json := .object [
    ("name", .string rootBone),
    ("pivot", .array [.int 0, .int 0, .int 0])]
  let particles : Json := .object [
    ("name", .string "particle_alignment"),
    ("parent", .string rootBone),
    ("locators", p.locatorsToJson)]
  let geometry : Json := .object [
    ("description", .object [("identifier", .string "geometry.armor_stand.hologram")]),
    ("bones", .array (root :: particles :: p.bones.map Bone.toJson))]
  .object [
    ("format_version", .string "1.16.0"),
    ("minecraft:geometry", .array [geometry])]

def namesToJson (names : Dictionary String) : Json :=
  .object (names.map fun (key, name) => (key, .string name))

def entityToJson (p : Pack) : Json :=
  let animations : Dictionary String :=
    p.animations.map fun a => (animationShortName a.index, animationName a.index)
  .object [
    ("initialize", .ofStrings [p.scripts.setup.text]),
    ("pre_animation", .ofStrings [p.scripts.frame.text]),
    ("animations", namesToJson animations.sorted),
    ("particle_effects", namesToJson p.particles)]

def paletteToJson (p : Pack) : Json :=
  .object [
    ("palette", p.palette.toJson),
    ("dangling_entries", .array (p.unused.map Json.ofNat))]

def files (p : Pack) : List PackFile :=
  p.animations.map animationFile ++ [
    ⟨"animation_controllers/armor_stand.hologram.animation_controllers.json", p.controllersToJson⟩,
    ⟨"models/entity/armor_stand.hologram.geo.json", p.geometryToJson⟩,
    ⟨"entity/armor_stand.hologram.scripts.json", p.entityToJson⟩,
    ⟨"block_palette.json", p.paletteToJson⟩]

end Pack
end Hologram
