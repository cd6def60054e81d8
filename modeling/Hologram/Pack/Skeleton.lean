import Hologram.Pack.Animation
import Std.Data.HashMap

/-! The bones that all structures share. Bones of one name are one bone, and the structure that has
it first decides where it hangs. -/
namespace Hologram

/-- Bones with different names. -/
structure Skeleton where
  bones : Array Bone := #[]
  /-- The parents of the bones under their names. -/
  parents : Std.HashMap String String := {}
  reports : Array Report := #[]

namespace Skeleton

/-- Adds a bone of a structure, unless there is one of its name. -/
def add (index : Nat) (s : Skeleton) (bone : Bone) : Skeleton :=
  match s.parents[bone.name]? with
  | none =>
    { s with bones := s.bones.push bone, parents := s.parents.insert bone.name bone.parent }
  | some parent =>
    if parent = bone.parent then s
    else { s with reports := s.reports.push (.keptParent bone.name parent index) }

/-- The bones of structures, given the blocks at each height of each of them. -/
def ofRows (structures : List (List (List Placement))) : Skeleton :=
  structures.zipIdx.foldl
    (fun s (rows, index) => (rows.flatten.map Placement.bone).foldl (add index) s) {}

end Skeleton
end Hologram
