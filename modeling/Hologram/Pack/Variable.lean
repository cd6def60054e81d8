import Hologram.Script.Procedure

/-! The variables of a hologram in the game, and the expressions that its files are made of. -/
namespace Hologram

inductive Variable where
  | rendering
  | validating
  | showTint
  | opacity
  | layer
  | layerMode
  | structureIndex
  | structureCount
  | rotation
  | backupSlot
  | savingBackup
  | lastAction
  | wasSneaking
  | sneakStarted
  | controlsDisabled
  | offsetX
  | offsetY
  | offsetZ
  | structureWidth
  | structureHeight
  | structureDepth
  | blocksToValidate
  | blocksToValidateInLayer
  deriving DecidableEq, Repr

namespace Variable

open Script

def name : Variable → String
  | rendering => "v.hologram.rendering"
  | validating => "v.hologram.validating"
  | showTint => "v.hologram.show_tint"
  | opacity => "v.hologram.opacity"
  | layer => "v.hologram.layer"
  | layerMode => "v.hologram.layer_mode"
  | structureIndex => "v.hologram.structure_index"
  | structureCount => "v.hologram.structure_count"
  | rotation => "v.hologram.rotation"
  | backupSlot => "v.hologram.backup_slot"
  | savingBackup => "v.hologram.saving_backup"
  | lastAction => "v.hologram.last_action"
  | wasSneaking => "v.hologram.was_sneaking"
  | sneakStarted => "v.hologram.sneak_started"
  | controlsDisabled => "v.hologram.controls_disabled"
  | offsetX => "v.hologram.offset_x"
  | offsetY => "v.hologram.offset_y"
  | offsetZ => "v.hologram.offset_z"
  | structureWidth => "v.hologram.structure_w"
  | structureHeight => "v.hologram.structure_h"
  | structureDepth => "v.hologram.structure_d"
  | blocksToValidate => "v.hologram.total_blocks_to_validate"
  | blocksToValidateInLayer => "v.hologram.total_blocks_to_validate_layer"

/-- Different variables have different names. -/
theorem name_injective {a b : Variable} (h : a.name = b.name) : a = b := by
  revert h
  cases a <;> cases b <;> decide

def get (v : Variable) : Expression :=
  .name v.name

def set (v : Variable) (value : Expression) : Instruction Expression :=
  .assign v.get value

def compare (operator : BinaryOperator) (v : Variable) (value : Int) : Expression :=
  .binary operator v.get (.int value)

def negation (v : Variable) : Expression :=
  .unary .not v.get

end Variable

/-- How the layers beside the selected one are drawn. -/
inductive LayerMode where
  | single
  | allBelow
  deriving DecidableEq, Repr

def LayerMode.number : LayerMode → Int
  | single => 0
  | allBelow => 1

/-- Terms under one operator, grouped from the left. -/
def chained (operator : Script.BinaryOperator) (first : Script.Expression)
    (rest : List Script.Expression) : Script.Expression :=
  rest.foldl (.binary operator) first

end Hologram
