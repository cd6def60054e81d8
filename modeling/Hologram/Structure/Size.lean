import Hologram.Document.Record

/-! The extents of a structure and the positions inside it. -/
namespace Hologram

structure Size where
  width : Nat
  height : Nat
  depth : Nat
  deriving DecidableEq, Repr

namespace Size

def volume (s : Size) : Nat :=
  s.width * s.height * s.depth

/-- The number of voxels, a word of 64 bits. It wraps when the product is greater. -/
def voxelCount (s : Size) : Nat :=
  s.volume % Number.Width.bits64.count

/-- The place of a voxel in a layer. Neighbours along the depth are neighbours there. -/
def offset (s : Size) (x y z : Nat) : Nat :=
  (x * s.height + y) * s.depth + z

def extents (s : Size) : List Nat :=
  [s.width, s.height, s.depth]

def text (s : Size) : String :=
  "x".intercalate (s.extents.map toString)

def toJson (s : Size) : Json :=
  .array (s.extents.map Json.ofNat)

/-- The size that a document gives as a list of its three extents. -/
def ofDocument? (d : Document) : Option Size :=
  match d.toList? (Document.toNat? .bits32) with
  | some [width, height, depth] => some ⟨width, height, depth⟩
  | _ => none

theorem voxelCount_of_lt {s : Size} (h : s.volume < Number.Width.bits64.count) :
    s.voxelCount = s.volume :=
  Nat.mod_eq_of_lt h

example : voxelCount ⟨0x80000000, 0x80000000, 4⟩ = 0 := by decide

/-- The offsets of voxels inside a structure are below the product of its extents. -/
theorem offset_lt_volume {s : Size} {x y z : Nat} (hx : x < s.width) (hy : y < s.height)
    (hz : z < s.depth) : s.offset x y z < s.volume := by
  have hxy : x * s.height + y + 1 ≤ s.width * s.height :=
    calc x * s.height + y + 1 ≤ x * s.height + s.height := by omega
      _ = (x + 1) * s.height := by rw [Nat.add_mul, Nat.one_mul]
      _ ≤ s.width * s.height := Nat.mul_le_mul_right _ hx
  calc (x * s.height + y) * s.depth + z < (x * s.height + y) * s.depth + s.depth := by omega
    _ = (x * s.height + y + 1) * s.depth := by rw [Nat.add_mul _ 1, Nat.one_mul]
    _ ≤ s.width * s.height * s.depth := Nat.mul_le_mul_right _ hxy

/-- The offsets of voxels inside a structure are below their number unless it wraps. -/
theorem offset_lt_voxelCount {s : Size} {x y z : Nat} (h : s.volume < Number.Width.bits64.count)
    (hx : x < s.width) (hy : y < s.height) (hz : z < s.depth) : s.offset x y z < s.voxelCount :=
  voxelCount_of_lt h ▸ offset_lt_volume hx hy hz

end Size

structure Position where
  x : Int
  y : Int
  z : Int
  deriving DecidableEq, Repr

namespace Position

/-- A coordinate: an integer of 32 bits with a sign. -/
def coordinate : Nat → Int :=
  Number.Width.bits32.signed

def ofVoxel (x y z : Nat) : Position :=
  ⟨coordinate x, coordinate y, coordinate z⟩

def text (p : Position) : String :=
  "(" ++ ",".intercalate ([p.x, p.y, p.z].map toString) ++ ")"

/-- A number in the lower half of the width is its own coordinate. -/
theorem coordinate_of_lt {n : Nat} (h : n < Number.Width.bits32.half) : coordinate n = n :=
  Number.Width.signed_of_lt_half h

/-- Below that half a voxel has its own coordinates. -/
theorem ofVoxel_of_lt {x y z : Nat} (hx : x < Number.Width.bits32.half)
    (hy : y < Number.Width.bits32.half) (hz : z < Number.Width.bits32.half) :
    ofVoxel x y z = ⟨x, y, z⟩ := by
  simp [ofVoxel, coordinate_of_lt hx, coordinate_of_lt hy, coordinate_of_lt hz]

example : (ofVoxel 4294967295 0 0).text = "(-1,0,0)" := by decide +kernel

end Position

/-- The reference of a voxel that holds no block. -/
def noBlock : Int := -1

/-- One layer of a structure: for each voxel the slot of its block. A reference that names no live
slot stands for no block. -/
abbrev Layer := Array Int

def Layer.toJson (layer : Layer) : Json :=
  .array (layer.toList.map Json.int)

def Layer.ofDocument? (d : Document) : Option Layer :=
  (d.toList? Document.toInt32?).map List.toArray

end Hologram
