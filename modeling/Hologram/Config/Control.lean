import Hologram.Document.Record

/-! What a player can do to a hologram, and the held items that do it. -/
namespace Hologram

inductive Control where
  | toggleRendering
  | changeOpacity
  | toggleTint
  | toggleValidating
  | changeLayer
  | decreaseLayer
  | changeLayerMode
  | moveHologram
  | rotateHologram
  | changeStructure
  | disablePlayerControls
  | backupHologram
  deriving DecidableEq, Repr

namespace Control

def all : List Control :=
  [toggleRendering, changeOpacity, toggleTint, toggleValidating, changeLayer, decreaseLayer,
    changeLayerMode, moveHologram, rotateHologram, changeStructure, disablePlayerControls,
    backupHologram]

def name : Control → String
  | toggleRendering => "TOGGLE_RENDERING"
  | changeOpacity => "CHANGE_OPACITY"
  | toggleTint => "TOGGLE_TINT"
  | toggleValidating => "TOGGLE_VALIDATING"
  | changeLayer => "CHANGE_LAYER"
  | decreaseLayer => "DECREASE_LAYER"
  | changeLayerMode => "CHANGE_LAYER_MODE"
  | moveHologram => "MOVE_HOLOGRAM"
  | rotateHologram => "ROTATE_HOLOGRAM"
  | changeStructure => "CHANGE_STRUCTURE"
  | disablePlayerControls => "DISABLE_PLAYER_CONTROLS"
  | backupHologram => "BACKUP_HOLOGRAM"

def ofName? (name : String) : Option Control :=
  all.find? fun control => control.name == name

/-- The number that stands for a control once it was used; zero stands for none. -/
def actionId (control : Control) : Nat :=
  all.idxOf control + 1

@[simp] theorem ofName?_name (control : Control) : ofName? control.name = some control := by
  cases control <;> decide

theorem mem_all (control : Control) : control ∈ all := by
  cases control <;> decide

/-- Different controls have different numbers. -/
theorem actionId_injective {a b : Control} (h : a.actionId = b.actionId) : a = b := by
  revert h
  cases a <;> cases b <;> decide

end Control

def actionIds : Dictionary Nat :=
  ("NONE", 0) :: Control.all.map fun control => (control.name, control.actionId)

/-- Held items: those with one of the names and those with one of the tags. -/
structure ItemCriteria where
  names : List String := []
  tags : List String := []
  deriving DecidableEq, Repr

namespace ItemCriteria

def named (name : String) : ItemCriteria :=
  ⟨[name], []⟩

/-- A name with its namespace. A name without one belongs to the game itself. -/
def qualified (name : String) : String :=
  if name.toList.contains ':' then name else "minecraft:" ++ name

def literal (text : String) : String :=
  "'" ++ text ++ "'"

/-- The query whether a slot holds one of several items; no items need no query. -/
def query (function slot : String) (values : List String) : List String :=
  if values.isEmpty then []
  else
    let arguments := literal slot :: values.map fun value => literal (qualified value)
    [function ++ "(" ++ ",".intercalate arguments ++ ")"]

def nameQuery : String := "q.is_item_name_any"

def tagQuery : String := "q.equipped_item_any_tag"

/-- The code that asks whether a slot holds such an item. Without names and tags none does. -/
def code (criteria : ItemCriteria) (slot : String) : String :=
  let queries := query nameQuery slot criteria.names ++ query tagQuery slot criteria.tags
  if queries.isEmpty then "false" else "||".intercalate queries

def toJson (criteria : ItemCriteria) : Json :=
  .object [("names", .ofStrings criteria.names), ("tags", .ofStrings criteria.tags)]

def ofDocument? (d : Document) : Option ItemCriteria := do
  let record ← d.record? ["names", "tags"]
  let names ← Document.optional? record "names" [] (Document.toList? Document.toText?)
  let tags ← Document.optional? record "tags" [] (Document.toList? Document.toText?)
  return ⟨names, tags⟩

example : code ⟨["mod:wand", "bone"], ["planks"]⟩ "s" =
    "q.is_item_name_any('s','mod:wand','minecraft:bone')||" ++
      "q.equipped_item_any_tag('s','minecraft:planks')" := by decide +kernel

end ItemCriteria

def heldItemSlot : String := "slot.weapon.mainhand"

def Control.defaultCriteria : Control → ItemCriteria
  | toggleRendering => .named "brick"
  | changeOpacity => .named "amethyst_shard"
  | toggleTint => .named "white_dye"
  | toggleValidating => .named "iron_ingot"
  | changeLayer => .named "leather"
  | decreaseLayer => .named "feather"
  | changeLayerMode => .named "flint"
  | moveHologram => .named "stick"
  | rotateHologram => .named "copper_ingot"
  | changeStructure => .named "arrow"
  | disablePlayerControls => .named "bone"
  | backupHologram => .named "paper"

end Hologram
