import Hologram.Pack.Animation
import Hologram.Pack.Controller

/-! The controller of validation. It shows nothing by default. Each structure has a state that marks
its missing blocks in every layer, and a state for each layer that has blocks. -/
namespace Hologram

open Script

namespace Validation

/-- The state in which nothing is shown. -/
def idle : String := "default"

def wholeState (index : Nat) : String :=
  "validate_" ++ toString index

def layerState (index y : Nat) : String :=
  wholeState index ++ "_l_" ++ toString y

/-- The guard of the states that validate a structure, as a whole when the layer is -1. -/
def selects (index : Nat) (layer : Int) : Expression :=
  chained .and Variable.validating.get
    [Variable.structureIndex.compare .equal index, Variable.layer.compare .equal layer]

/-- The guard that leads back: validation is off, another structure is selected, or the selected
layer has nothing to validate. -/
def deselects (index height : Nat) (emptyLayers : List Nat) : Expression :=
  chained .or Variable.validating.negation <|
    [Variable.structureIndex.compare .notEqual index] ++
      emptyLayers.map (fun (y : Nat) => Variable.layer.compare .equal y) ++
      [Variable.layer.compare .less (-1), Variable.layer.compare .greaterEqual height]

/-- The name by which the entity refers to the particle of a block. A colon would end the name. -/
def particleShortName (block : String) : String :=
  "validate_" ++ String.ofList (block.toList.map fun c => if c = ':' then '.' else c)

def particleName (space shortName : String) : String :=
  space ++ ":" ++ shortName

def effect (space : String) (b : ValidatedBlock) : ParticleEffect where
  effect := particleName space (particleShortName b.block)
  locator := b.locator
  script := Code.text [
    .assign (.name "v.x") (.int b.position.x),
    .assign (.name "v.y") (.int b.position.y),
    .assign (.name "v.z") (.int b.position.z)]

/-- Whether a layer has blocks to validate. -/
def isFilled (v : Validation) (y : Nat) : Bool :=
  v.counts[y]?.any (0 < ·)

/-- The layers that have blocks to validate, and those that have none. -/
def layers (v : Validation) (height : Nat) : List Nat × List Nat :=
  (List.range height).partition v.isFilled

def toWhole (index : Nat) : Transition :=
  .when (wholeState index) (selects index (-1))

def toLayer (index y : Nat) : Transition :=
  .when (layerState index y) (selects index y)

def entrances (index height : Nat) (v : Validation) : List Transition :=
  toWhole index :: (v.layers height).1.map (toLayer index)

def states (space : String) (index height : Nat) (v : Validation) : Dictionary ControllerState :=
  let (filled, empty) := v.layers height
  let back : Transition := .when idle (deselects index height empty)
  let whole : ControllerState := {
    effects := v.blocks.map (effect space)
    transitions := back :: filled.map (toLayer index) }
  let layer (y : Nat) : ControllerState := {
    effects := (v.blocks.filter (·.position.y == Position.coordinate y)).map (effect space)
    transitions := back :: toWhole index :: (filled.filter (· != y)).map (toLayer index) }
  (wholeState index, whole) :: filled.map fun y => (layerState index y, layer y)

/-- The controller of validation for structures with their sizes. -/
def controller (space : String) (structures : List (Size × Validation)) : Controller :=
  let numbered := structures.zipIdx
  let default : ControllerState := {
    transitions := numbered.flatMap fun ((size, v), index) => entrances index size.height v }
  let others := numbered.flatMap fun ((size, v), index) => states space index size.height v
  ⟨idle, (idle, default) :: others⟩

end Validation
end Hologram
