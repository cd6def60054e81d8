import Hologram.Config.Basic
import Hologram.Pack.Animation
import Hologram.Script.Lookup

/-! The scripts of the entity that shows a hologram: one that runs once, and one that runs in every
frame. The second follows the selected structure and lets held items act when the player starts to
sneak. -/
namespace Hologram

open Script

/-- The code of the two scripts. -/
structure EntityScripts where
  setup : Code
  frame : Code
  deriving Repr

namespace EntityScripts

/-- A variable with an integer from the start. -/
def start (v : Variable) (value : Int) : Instruction Expression :=
  v.set (.int value)

/-- The script that runs once, for a number of structures of which the first has a given size. -/
def setupCode (config : Config) (count : Nat) (first : Size) : Code := [
  start .rendering 1,
  start .validating 0,
  start .showTint 0,
  start .opacity 0,
  start .layer (-1),
  start .layerMode LayerMode.single.number,
  start .structureIndex 0,
  start .structureCount count,
  start .rotation 0,
  start .backupSlot (-1),
  start .savingBackup 0,
  start .lastAction 0,
  start .wasSneaking 0,
  start .controlsDisabled 0,
  start .offsetX config.initialOffset.x,
  start .offsetY config.initialOffset.y,
  start .offsetZ config.initialOffset.z,
  start .structureWidth first.width,
  start .structureHeight first.height,
  start .structureDepth first.depth]

def sneaking : Expression := .name "q.is_sneaking"

def toggle (v : Variable) : Instruction Expression :=
  v.set v.negation

def shifted (operator : BinaryOperator) (v : Variable) : Expression :=
  v.compare operator 1

/-- Counts a variable up, from its last value to zero. -/
def cycle (v : Variable) (count : Expression) : Instruction Expression :=
  v.set (.call "math.mod" [shifted .add v, count])

def selectTop : Instruction Expression :=
  Variable.layer.set (shifted .subtract .structureHeight)

def isAboveTop : Expression :=
  .binary .greaterEqual Variable.layer.get Variable.structureHeight.get

def effect (config : Config) : Control → Code
  | .toggleRendering => [toggle .rendering]
  | .changeOpacity => [cycle .opacity (.int 4)]
  | .toggleTint => [toggle .showTint]
  | .toggleValidating => [toggle .validating]
  | .changeLayer => [
    Variable.layer.set (shifted .add .layer),
    .branch isAboveTop [start .layer (-1)] []]
  | .decreaseLayer => [
    Variable.layer.set (shifted .subtract .layer),
    .branch (Variable.layer.compare .less (-1)) [selectTop] []]
  | .changeLayerMode => [
    Variable.layerMode.set <|
      .conditional (Variable.layerMode.compare .equal LayerMode.single.number)
        (.int LayerMode.allBelow.number) (.int LayerMode.single.number)]
  | .moveHologram => [Variable.offsetY.set (shifted .add .offsetY)]
  | .rotateHologram => [cycle .rotation (.int 4)]
  | .changeStructure => [cycle .structureIndex Variable.structureCount.get]
  | .disablePlayerControls => [toggle .controlsDisabled]
  | .backupHologram => [
    cycle .backupSlot (.int config.backupSlotCount),
    start .savingBackup 1]

/-- What a control does, together with the note that it was used. -/
def action (config : Config) (control : Control) : Code :=
  start .lastAction control.actionId :: effect config control

def holds (config : Config) (control : Control) : Expression :=
  .raw ((config.criteria control).code heldItemSlot)

/-- The action of the first of several controls whose item is held. -/
def firstAction (config : Config) (controls : List Control) : Code :=
  controls.foldr
    (fun control others => [.branch (holds config control) (action config control) others]) []

def whenSneakStarted (condition : Expression) : Expression :=
  .binary .and Variable.sneakStarted.get condition

def ordinaryControls : List Control :=
  Control.all.filter (· != .disablePlayerControls)

/-- Lets the held item act. The control that disables the others is never disabled itself. -/
def actions (config : Config) : Instruction Expression :=
  .branch (whenSneakStarted (holds config .disablePlayerControls))
    (action config .disablePlayerControls)
    [.branch (whenSneakStarted Variable.controlsDisabled.negation)
      (firstAction config ordinaryControls) []]

def perStructure (config : Config) (numbers : List Nat) : Expression :=
  .raw <|
    Lookup.ofList config.arraySplitThreshold Variable.structureIndex.name (numbers.map toString)

def perLayer (config : Config) (numbers : List (List Nat)) : Expression :=
  .raw <|
    Lookup.ofRows config.arraySplitThreshold Variable.structureIndex.name Variable.layer.name
      (numbers.map fun row => row.map toString)

/-- The script that runs in every frame. -/
def frameCode (config : Config) (sizes : List Size) (validations : List Validation) : Code := [
  Variable.structureWidth.set (perStructure config (sizes.map (·.width))),
  Variable.structureHeight.set (perStructure config (sizes.map (·.height))),
  Variable.structureDepth.set (perStructure config (sizes.map (·.depth))),
  .branch isAboveTop [selectTop] [],
  Variable.blocksToValidate.set (perStructure config (validations.map (·.blocks.length))),
  Variable.blocksToValidateInLayer.set (perLayer config (validations.map (·.counts))),
  start .savingBackup 0,
  Variable.sneakStarted.set (.binary .and sneaking Variable.wasSneaking.negation),
  Variable.wasSneaking.set sneaking,
  actions config]

/-- The scripts for structures of given sizes, of which there must be one. -/
def ofStructures (config : Config) (sizes : List Size) (validations : List Validation) :
    Except PackError EntityScripts :=
  match sizes with
  | [] => .error .noScripts
  | first :: _ =>
    .ok ⟨setupCode config sizes.length first, frameCode config sizes validations⟩

end EntityScripts
end Hologram
