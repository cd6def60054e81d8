import Hologram.Error
import Hologram.Pack.Variable
import Hologram.Script.Emission
import Hologram.Structure.Palette

/-! The animations of structures. Every voxel that holds a block has a bone of its own, which
repeats the template bone of the block's slot at the place of the voxel. -/
namespace Hologram

open Script

/-- The bone that all others hang on. -/
def rootBone : String := "hologram_root"

def templateBone (slot : Nat) : String :=
  "template_" ++ toString slot

/-- The name by which the entity refers to the animation of a structure. -/
def animationShortName (index : Nat) : String :=
  "hologram.structure_" ++ toString index

def animationName (index : Nat) : String :=
  "animation." ++ animationShortName index

structure Bone where
  name : String
  parent : String
  pivot : Option (List Float) := none
  scale : Option Float := none
  deriving Repr

def numbersToJson (numbers : List Float) : Json :=
  .array (numbers.map Json.float)

namespace Bone

/-- The hidden bone of a slot. -/
def template (slot : Nat) : Bone :=
  ⟨templateBone slot, rootBone, some [8.0, 0.0, -8.0], some 0.0⟩

def toJson (bone : Bone) : Json :=
  .object <|
    [("name", .string bone.name), ("parent", .string bone.parent)] ++
      (bone.pivot.map fun pivot => ("pivot", numbersToJson pivot)).toList ++
      (bone.scale.map fun scale => ("scale", Json.float scale)).toList

end Bone

def templateBones (palette : Palette) : List Bone :=
  palette.live.map fun (slot, _) => Bone.template slot

/-- A voxel of one layer that holds a block. -/
structure Placement where
  x : Nat
  y : Nat
  z : Nat
  layer : Nat
  slot : Nat
  block : Block
  deriving Repr

namespace Placement

def boneName (p : Placement) : String :=
  "p_" ++ "_".intercalate ([p.x, p.y, p.z, p.layer].map toString)

/-- The name of the place where particles show that the block is missing. -/
def locator (p : Placement) : String :=
  "b_" ++ "_".intercalate ([p.x, p.y, p.z].map toString)

def bone (p : Placement) : Bone :=
  { name := p.boneName, parent := templateBone p.slot }

/-- Where the bone is drawn: sixteen units to a voxel, the first axis reversed. -/
def origin (p : Placement) : List Float :=
  [-16.0 * Float.ofNat p.x, 16.0 * Float.ofNat p.y, 16.0 * Float.ofNat p.z]

def at? (size : Size) (palette : Palette) (x y z : Nat) (layer : Layer × Nat) :
    Option Placement := do
  let reference ← layer.1[size.offset x y z]?
  let block ← palette.get? reference
  return ⟨x, y, z, layer.2, reference.toNat, block⟩

/-- What there is at one position, layer by layer. -/
def column (size : Size) (palette : Palette) (layers : List Layer) (x y z : Nat) :
    List Placement :=
  layers.zipIdx.filterMap (at? size palette x y z)

/-- The length of the longest layer. -/
def reach : List Layer → Nat
  | [] => 0
  | layer :: layers => max layer.size (reach layers)

/-- The blocks at one height, along the width, then the depth, then the layers. No coordinate
exceeds the offset of its voxel, so an extent beyond the longest layer holds nothing more. -/
def row (size : Size) (palette : Palette) (layers : List Layer) (y : Nat) : List Placement :=
  (List.range (min size.width (reach layers))).flatMap fun x =>
    (List.range (min size.depth (reach layers))).flatMap fun z =>
      column size palette layers x y z

theorem size_le_reach {layers : List Layer} {layer : Layer} (h : layer ∈ layers) :
    layer.size ≤ reach layers := by
  induction layers with
  | nil => cases h
  | cons first rest ih =>
    rcases List.mem_cons.1 h with rfl | h
    · exact Nat.le_max_left ..
    · exact Nat.le_trans (ih h) (Nat.le_max_right ..)

/-- A position whose offset no layer reaches is empty. -/
theorem column_eq_nil {size : Size} {palette : Palette} {layers : List Layer} {x y z : Nat}
    (h : reach layers ≤ size.offset x y z) : column size palette layers x y z = [] := by
  refine List.filterMap_eq_nil_iff.2 fun layer member => ?_
  have mem : layer.1 ∈ layers := by
    obtain ⟨_, _, heq⟩ := List.mem_zipIdx member
    rw [heq]
    exact List.getElem_mem _
  have beyond : layer.1[size.offset x y z]? = none :=
    Array.getElem?_eq_none (Nat.le_trans (size_le_reach mem) h)
  simp [at?, beyond]

/-- A range may end before positions that contribute nothing. -/
theorem flatMap_range_min {α : Type} (f : Nat → List α) (n m : Nat)
    (h : ∀ i, i < n → m ≤ i → f i = []) :
    (List.range (min n m)).flatMap f = (List.range n).flatMap f := by
  by_cases hnm : n ≤ m
  · rw [Nat.min_eq_left hnm]
  · have hmn : m ≤ n := by omega
    obtain ⟨k, rfl⟩ := Nat.exists_eq_add_of_le hmn
    rw [Nat.min_eq_right hmn, List.range_add, List.flatMap_append, List.flatMap_map]
    have rest : (List.range k).flatMap (fun i => f (m + i)) = [] := by
      refine List.flatMap_eq_nil_iff.2 fun i member => ?_
      have hi := List.mem_range.1 member
      exact h (m + i) (by omega) (by omega)
    rw [rest, List.append_nil]

/-- A row holds the blocks of its whole width and depth. -/
theorem row_eq {size : Size} {palette : Palette} {layers : List Layer} {y : Nat}
    (hy : y < size.height) :
    row size palette layers y =
      (List.range size.width).flatMap fun x =>
        (List.range size.depth).flatMap fun z => column size palette layers x y z := by
  have inner (x : Nat) :
      (List.range (min size.depth (reach layers))).flatMap (column size palette layers x y) =
        (List.range size.depth).flatMap (column size palette layers x y) :=
    flatMap_range_min _ _ _ fun z _ beyond =>
      column_eq_nil (Nat.le_trans beyond (Nat.le_add_left ..))
  have outer := flatMap_range_min
    (fun x => (List.range size.depth).flatMap (column size palette layers x y))
    size.width (reach layers) fun x _ beyond => List.flatMap_eq_nil_iff.2 fun z member => by
      have hz := List.mem_range.1 member
      have along_width : x ≤ size.offset x y z :=
        calc x ≤ x * size.height := Nat.le_mul_of_pos_right x (by omega)
          _ ≤ x * size.height + y := Nat.le_add_right ..
          _ ≤ (x * size.height + y) * size.depth := Nat.le_mul_of_pos_right _ (by omega)
          _ ≤ size.offset x y z := Nat.le_add_right ..
      exact column_eq_nil (Nat.le_trans beyond along_width)
  simp only [row, inner]
  exact outer

/-- The blocks at each height, from the lowest. -/
def rows (size : Size) (palette : Palette) (layers : List Layer) : List (List Placement) :=
  (List.range size.height).map (row size palette layers)

end Placement

structure ValidatedBlock where
  locator : String
  block : String
  position : Position
  deriving DecidableEq, Repr

structure Validation where
  blocks : List ValidatedBlock := []
  /-- The number of blocks at each height. -/
  counts : List Nat := []
  deriving DecidableEq, Repr

namespace Validation

def primary (placements : List Placement) : List Placement :=
  placements.filter (·.layer == 0)

def blockOf (p : Placement) : ValidatedBlock :=
  ⟨p.locator, p.block.name, Position.ofVoxel p.x p.y p.z⟩

def ofRows (rows : List (List Placement)) : Validation :=
  ⟨rows.flatMap fun row => (primary row).map blockOf, rows.map fun row => (primary row).length⟩

end Validation

/-- Where a bone is drawn, and the code of its scale. -/
structure BoneMotion where
  origin : List Float
  scale : String
  deriving Repr

/-- The looping animation of a structure. -/
structure Animation where
  index : Nat
  bones : Dictionary BoneMotion
  deriving Repr

namespace Animation

/-- The scale of the blocks at one height: full when no layer is selected or the mode shows them,
and `miniScale` otherwise. -/
def scale (y : Nat) (miniScale : Float) : Expression :=
  let shown : Expression :=
    .conditional (Variable.layerMode.compare .equal LayerMode.allBelow.number)
      (Variable.layer.compare .greaterEqual y) (Variable.layer.compare .equal y)
  .conditional (.binary .or (Variable.layer.compare .equal (-1)) shown) (.float 1.0)
    (.float miniScale)

def rowBones (miniScale : Float) (row : List Placement) (y : Nat) : Dictionary BoneMotion :=
  let scale := (scale y miniScale).text
  row.map fun p => (p.boneName, ⟨p.origin, scale⟩)

/-- The animation of a structure, given the blocks at each height. -/
def ofRows (index : Nat) (miniScale : Float) (rows : List (List Placement)) : Animation :=
  ⟨index, rows.zipIdx.flatMap fun (row, y) => rowBones miniScale row y⟩

/-- An animation in a document, bones in the order of their names. -/
def toJson (a : Animation) : Json :=
  let bone (motion : BoneMotion) : Json :=
    .object [("position", numbersToJson motion.origin), ("scale", .string motion.scale)]
  let animation : Json := .object [
    ("loop", .bool true),
    ("bones", .object (a.bones.sorted.map fun (name, motion) => (name, bone motion)))]
  .object [
    ("format_version", .string "1.8.0"),
    ("animations", .object [(animationName a.index, animation)])]

example : (scale 1 0.125).text =
    "v.hologram.layer==-1||(v.hologram.layer_mode==1?v.hologram.layer>=1:v.hologram.layer==1)" ++
      "?1.0:0.125" := by decide +kernel

end Animation
end Hologram
