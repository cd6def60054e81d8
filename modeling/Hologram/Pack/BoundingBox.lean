import Hologram.Pack.Animation
import Hologram.Pack.Controller

/-! The controller of the bounding box, which draws the twelve edges of the selected structure: the
three axes in colours, then the nine other edges in white. -/
namespace Hologram

open Script

namespace BoundingBox

def particle : String := "bounding_box_outline"

structure Edge where
  /-- The axis that the edge runs along. -/
  axis : Nat
  /-- The axes along which the edge is away from the origin. -/
  shifts : List Nat
  colour : List Expression

def white : List Expression := [.int 1, .int 1, .int 1]

/-- A part of a colour out of 255. -/
def shade (part : Int) : Expression :=
  .binary .divide (.int part) (.int 255)

/-- The edges that meet in the origin. -/
def axes : List Edge :=
  [⟨0, [], [.int 1, .int 0, .int 0]⟩,
    ⟨1, [], [shade 1, .int 1, .int 0]⟩,
    ⟨2, [], [.int 0, shade 162, .int 1]⟩]

def whiteEdges (axis : Nat) : List Edge :=
  let others := [0, 1, 2].filter (· != axis)
  let shifts := others.map (fun other => [other]) ++ [others]
  shifts.map fun shifted => ⟨axis, shifted, white⟩

def edges : List Edge :=
  axes ++ [0, 1, 2].flatMap whiteEdges

def half (length : Nat) : Expression :=
  if length % 2 = 0 then .int (length / 2 : Nat) else .float (Float.ofNat length / 2.0)

def extent (size : Size) (axis : Nat) : Nat :=
  size.extents[axis]?.getD 0

def coordinate (axis : Nat) : String :=
  ["v.x", "v.y", "v.z"][axis]?.getD "v.x"

def Edge.code (edge : Edge) (size : Size) : Code :=
  let assign (name : String) (value : Expression) : Instruction Expression :=
    .assign (.name name) value
  let shifts := edge.shifts.map fun axis => assign (coordinate axis) (.int (extent size axis))
  let colour := List.zipWith assign ["v.r", "v.g", "v.b"] edge.colour
  assign "v.size" (half (extent size edge.axis)) :: assign "v.dir" (.int edge.axis) ::
    (shifts ++ colour)

def Edge.effect (size : Size) (edge : Edge) : ParticleEffect :=
  ⟨particle, rootBone, Code.text (edge.code size)⟩

/-- The state in which no box is drawn. -/
def hidden : String := "hidden"

def visible (index : Nat) : String :=
  "visible_" ++ toString index

/-- The guard of the state that draws the box of a structure. -/
def shows (index : Nat) : Expression :=
  chained .and Variable.rendering.get [Variable.structureIndex.compare .equal index]

/-- The guard that leads back. -/
def hides (index : Nat) : Expression :=
  chained .or Variable.rendering.negation [Variable.structureIndex.compare .notEqual index]

def visibleState (size : Size) (index : Nat) : ControllerState where
  effects := edges.map (Edge.effect size)
  transitions := [.when hidden (hides index)]

/-- The controller of the bounding box for structures of given sizes. -/
def controller (sizes : List Size) : Controller :=
  let numbered := sizes.zipIdx
  let none : ControllerState := {
    transitions := numbered.map fun (_, index) => .when (visible index) (shows index) }
  ⟨hidden, (hidden, none) :: numbered.map fun (size, index) =>
    (visible index, visibleState size index)⟩

example : edges.length = 12 := by decide

example : (edges.map fun edge => Code.text (edge.code ⟨3, 4, 5⟩)).drop 10 =
    ["v.size=2.5;v.dir=2;v.y=4;v.r=1;v.g=1;v.b=1;",
      "v.size=2.5;v.dir=2;v.x=3;v.y=4;v.r=1;v.g=1;v.b=1;"] := by decide +kernel

end BoundingBox
end Hologram
