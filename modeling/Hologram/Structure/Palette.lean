import Hologram.Structure.Block

/-! Palettes. A slot that loses its block stays behind empty, so that the slots after it keep their
places. -/
namespace Hologram

/-- Slots for blocks. A slot without a block is dead. -/
structure Palette where
  slots : Array (Option Block) := #[]
  deriving Repr

namespace Palette

def ofBlocks (blocks : List Block) : Palette :=
  ⟨(blocks.map some).toArray⟩

/-- The number of slots, dead ones included. -/
def size (p : Palette) : Nat :=
  p.slots.size

/-- Adds a slot at the end, with or without a block. -/
def push (p : Palette) (slot : Option Block) : Palette :=
  ⟨p.slots.push slot⟩

def block? (p : Palette) (slot : Nat) : Option Block :=
  p.slots[slot]?.join

/-- The block that a voxel refers to. No slot has a negative number. -/
def get? (p : Palette) (reference : Int) : Option Block :=
  if reference < 0 then none else p.block? reference.toNat

/-- Whether a voxel refers to a block. -/
def isLive (p : Palette) (reference : Int) : Bool :=
  (p.get? reference).isSome

/-- Takes the block out of a slot. -/
def bury (p : Palette) (slot : Nat) : Palette :=
  ⟨p.slots.setIfInBounds slot none⟩

/-- Adds a slot at the end and gives its number. -/
def append (p : Palette) (slot : Option Block) : Nat × Palette :=
  (p.size, p.push slot)

/-- Takes the block out of a slot and gives it, if there was one. -/
def take (p : Palette) (slot : Nat) : Option Block × Palette :=
  (p.block? slot, p.bury slot)

def live (p : Palette) : List (Nat × Block) :=
  p.slots.toList.zipIdx.filterMap fun (slot, number) => slot.map fun block => (number, block)

def liveCount (p : Palette) : Nat :=
  p.slots.toList.countP Option.isSome

def toJson (p : Palette) : Json :=
  .array (p.slots.toList.map (Json.ofOption Block.toJson))

@[simp] theorem size_push (p : Palette) (slot : Option Block) :
    (p.push slot).size = p.size + 1 := by
  simp [size, push]

@[simp] theorem size_bury (p : Palette) (slot : Nat) : (p.bury slot).size = p.size := by
  simp [size, bury]

@[simp] theorem block?_push (p : Palette) (slot : Option Block) (number : Nat) :
    (p.push slot).block? number = if number = p.size then slot else p.block? number := by
  by_cases h : number = p.slots.size <;> simp [block?, push, size, Array.getElem?_push, h]

@[simp] theorem block?_bury (p : Palette) (slot number : Nat) :
    (p.bury slot).block? number = if number = slot then none else p.block? number := by
  simp only [block?, bury, Array.getElem?_setIfInBounds]
  by_cases h : slot = number
  · subst h
    by_cases hs : slot < p.slots.size <;> simp [hs]
  · simp [h, Ne.symm h]

@[simp] theorem get?_natCast (p : Palette) (slot : Nat) : p.get? slot = p.block? slot := by
  simp [get?, show ¬ ((slot : Int) < 0) by omega]

theorem get?_of_neg {p : Palette} {reference : Int} (h : reference < 0) :
    p.get? reference = none := by
  simp [get?, h]

end Palette
end Hologram
