import Hologram.Proofs.Structure.Block
import Hologram.Proofs.Structure.Folding
import Hologram.Structure.Assembly
import Mathlib.Data.List.Forall2

/-! One palette for several structures stands for what their own palettes stand for. The numbers
that a structure gets stay good when the structures after it add slots of their own. -/
namespace Hologram

/-- Members that correspond to each other have the same properties, so they are there together. -/
theorem exists_mem_iff_of_forall₂ {α β : Type} {p : α → Prop} {q : β → Prop} {as : List α}
    {bs : List β} (h : List.Forall₂ (fun a b => p a ↔ q b) as bs) :
    (∃ a ∈ as, p a) ↔ ∃ b ∈ bs, q b := by
  induction h with
  | nil => simp
  | cons hfirst _ ih => simp only [List.exists_mem_cons_iff, hfirst, ih]

/-- What becomes of a reference under a palette in common: no block or a live slot, with a block
equal to the one in the own palette, and no block only where the own palette has none. -/
structure Carries (own united : Palette) (reference carried : Int) : Prop where
  live : carried = noBlock ∨ united.isLive carried = true
  same : (united.get? carried == own.get? reference) = true
  missing : carried = noBlock ↔ own.get? reference = none

namespace Carries

variable {own united : Palette} {reference carried : Int}

/-- No block is carried over as no block. -/
theorem of_none (h : own.get? reference = none) : Carries own united reference noBlock where
  live := .inl rfl
  same := by
    rw [h, Palette.get?_of_neg (show noBlock < 0 by decide)]
    rfl
  missing := by simp [h]

/-- A block is carried over as a slot with an equal one. -/
theorem of_some {slot : Nat} {block equal : Block} (h : own.get? reference = some block)
    (hslot : united.block? slot = some equal) (hkey : equal.key = block.key) :
    Carries own united reference slot where
  live := .inr (by simp [Palette.isLive, hslot])
  same := by simpa [h, hslot, Block.beq_iff_key_eq] using hkey
  missing := by
    have hne : (slot : Int) ≠ noBlock := by simp only [noBlock]; omega
    simp [h, hne]

end Carries

namespace Assembly

/-- The number of a slot under a palette in common: no block for a dead slot, and for a live one a
slot with an equal block. -/
def Numbers (united : Palette) : Option Block → Int → Prop
  | none, number => number = noBlock
  | some block, number => ∃ (slot : Nat) (equal : Block),
      number = slot ∧ united.block? slot = some equal ∧ equal.key = block.key

theorem Numbers.mono {p q : Palette} (h : p.Extends q) {slot : Option Block} {number : Int}
    (hn : Numbers p slot number) : Numbers q slot number := by
  cases slot with
  | none => exact hn
  | some block =>
    obtain ⟨slot, equal, hnumber, hslot, hkey⟩ := hn
    exact ⟨slot, equal, hnumber, h.block? hslot, hkey⟩

/-- A reference under numbers that are right for its own palette. -/
theorem carries_renumber {own united : Palette} {numbers : List Int}
    (h : List.Forall₂ (Numbers united) own.slots.toList numbers) (reference : Int) :
    Carries own united reference (Structure.renumber numbers.toArray reference) := by
  unfold Structure.renumber
  by_cases hneg : reference < 0
  · rw [if_pos hneg]
    exact .of_none (Palette.get?_of_neg hneg)
  obtain ⟨slot, rfl⟩ := Int.eq_ofNat_of_zero_le (Int.not_lt.mp hneg)
  rw [if_neg hneg, Int.toNat_natCast, List.getElem?_toArray]
  obtain ⟨hlength, hnumbers⟩ := List.forall₂_iff_get.mp h
  have hown : own.get? slot = own.slots.toList[slot]?.join := by simp [Palette.block?]
  by_cases hslot : slot < numbers.length
  · have hn := hnumbers slot (hlength ▸ hslot) hslot
    rw [List.getElem?_eq_getElem (hlength ▸ hslot), Option.join_some] at hown
    rw [List.getElem?_eq_getElem hslot, Option.getD_some]
    rw [List.get_eq_getElem, List.get_eq_getElem, ← hown] at hn
    cases hblock : own.get? slot with
    | none =>
      rw [hblock] at hn
      exact hn ▸ .of_none hblock
    | some block =>
      rw [hblock] at hn
      obtain ⟨number, equal, hnumber, hequal, hkey⟩ := hn
      exact hnumber ▸ .of_some hblock hequal hkey
  · rw [List.getElem?_eq_none (hlength ▸ Nat.not_lt.mp hslot)] at hown
    rw [List.getElem?_eq_none (Nat.not_lt.mp hslot)]
    exact .of_none hown

namespace Index

/-- Every key in the index has a slot with a block of that key. -/
def Remembers (index : Index) : Prop :=
  index.palette.Remembers index.slots

theorem remembers_empty : Remembers {} :=
  fun _ _ h => by contradiction

/-- What one block does to an index: slots are only added, and the block has one. -/
theorem slotOf_spec {index : Index} (h : index.Remembers) (block : Block) :
    (index.slotOf block).2.Remembers ∧
      index.palette.Extends (index.slotOf block).2.palette ∧
      Numbers (index.slotOf block).2.palette (some block) (index.slotOf block).1 := by
  unfold slotOf
  cases hslot : index.slots.get? block.key with
  | some slot =>
    obtain ⟨equal, hequal, hkey⟩ := h block.key slot hslot
    exact ⟨h, .refl _, slot, equal, rfl, hequal, hkey⟩
  | none =>
    refine ⟨Palette.Remembers.push h block, Palette.extends_push _ _, index.palette.size, block,
      rfl, ?_, rfl⟩
    simp [Palette.append]

/-- What a whole palette does to an index. The numbers of the first slots stay right. -/
theorem slotsOf_spec (slots : List (Option Block)) {index : Index} (h : index.Remembers) :
    (index.slotsOf slots).2.Remembers ∧
      index.palette.Extends (index.slotsOf slots).2.palette ∧
      List.Forall₂ (Numbers (index.slotsOf slots).2.palette) slots (index.slotsOf slots).1 := by
  induction slots generalizing index with
  | nil => exact ⟨h, .refl _, .nil⟩
  | cons slot rest ih =>
    cases slot with
    | none =>
      obtain ⟨hremembers, hextends, hnumbers⟩ := ih h
      exact ⟨hremembers, hextends, .cons rfl hnumbers⟩
    | some block =>
      obtain ⟨hfirst, hextends, hnumber⟩ := slotOf_spec h block
      obtain ⟨hremembers, hmore, hnumbers⟩ := ih hfirst
      exact ⟨hremembers, hextends.trans hmore, .cons (hnumber.mono hmore) hnumbers⟩

end Index

/-- Every reference in the layers of a structure is carried over, each in its place. -/
def LayersCarry (united : Palette) (s : Structure) (layers : List Layer) : Prop :=
  List.Forall₂ (fun layer carried =>
    List.Forall₂ (Carries s.palette united) layer.toList carried.toList) s.layers layers

/-- Layers are carried over when one function carries every reference over. -/
theorem layersCarry_map {united : Palette} {s : Structure} {f : Int → Int}
    (h : ∀ reference, Carries s.palette united reference (f reference)) :
    LayersCarry united s (s.layers.map fun layer => layer.map f) := by
  have hlayer (layer : Layer) :
      List.Forall₂ (Carries s.palette united) layer.toList (layer.map f).toList := by
    rw [Array.toList_map, List.forall₂_map_right_iff, List.forall₂_same]
    exact fun reference _ => h reference
  rw [LayersCarry, List.forall₂_map_right_iff, List.forall₂_same]
  exact fun layer _ => hlayer layer

theorem LayersCarry.sizes {united : Palette} {s : Structure} {layers : List Layer}
    (h : LayersCarry united s layers) : s.layers.map Array.size = layers.map Array.size := by
  rw [← List.forall₂_eq_eq_eq]
  refine List.rel_map (fun layer carried hlayer => ?_) h
  simpa using hlayer.length_eq

theorem carries_ownLayers (s : Structure) : LayersCarry s.palette s (ownLayers s) := by
  refine layersCarry_map fun reference => ?_
  cases hblock : s.palette.get? reference with
  | none =>
    rw [if_neg (by simp [Palette.isLive, hblock])]
    exact .of_none hblock
  | some block =>
    rw [if_pos (by simp [Palette.isLive, hblock])]
    have hnat : ¬ reference < 0 := fun hneg => by
      rw [Palette.get?_of_neg hneg] at hblock
      contradiction
    obtain ⟨slot, rfl⟩ := Int.eq_ofNat_of_zero_le (Int.not_lt.mp hnat)
    exact .of_some hblock (Palette.get?_natCast _ _ ▸ hblock) rfl

/-- Uniting carries the layers of every structure over, to the palette that all of them leave. -/
theorem unite_spec (structures : List Structure) {index : Index} (h : index.Remembers) :
    index.palette.Extends (unite index structures).1.palette ∧
      List.Forall₂ (LayersCarry (unite index structures).1.palette) structures
        (unite index structures).2.1 := by
  induction structures generalizing index with
  | nil => exact ⟨.refl _, .nil⟩
  | cons s rest ih =>
    obtain ⟨hremembers, hextends, hnumbers⟩ := Index.slotsOf_spec s.palette.slots.toList h
    obtain ⟨hmore, hcarried⟩ := ih hremembers
    refine ⟨hextends.trans hmore, .cons (layersCarry_map (carries_renumber ?_)) hcarried⟩
    exact hnumbers.imp fun _ _ hnumber => hnumber.mono hmore

theorem ofStructures_carry (structures : List Structure) :
    List.Forall₂ (LayersCarry (ofStructures structures).1.palette) structures
      (ofStructures structures).1.structures := by
  match structures with
  | [] => exact .nil
  | [single] => exact .cons (carries_ownLayers single) .nil
  | first :: second :: rest => exact (unite_spec (first :: second :: rest) Index.remembers_empty).2

/-- Under the palette in common every layer has the shape that it had, and every reference stands
for the block that it stood for, or for none when it stood for none. -/
theorem ofStructures_sound (structures : List Structure) :
    structures.map (fun s => s.layers.map Array.size) =
        (ofStructures structures).1.structures.map (List.map Array.size) ∧
      List.Forall₂ (fun (s : Structure) (layers : List Layer) =>
          List.Forall₂ (fun (layer carried : Layer) =>
              List.Forall₂ (Carries s.palette (ofStructures structures).1.palette)
                layer.toList carried.toList)
            s.layers layers)
        structures (ofStructures structures).1.structures := by
  have hcarry := ofStructures_carry structures
  refine ⟨?_, hcarry⟩
  rw [← List.forall₂_eq_eq_eq]
  exact List.rel_map (fun s layers hlayers => hlayers.sizes) hcarry

end Assembly
end Hologram
