import Hologram.Proofs.Structure.FirstSeen
import Hologram.Proofs.Structure.Stability
import Hologram.Structure.Assembly

/-! The palette of several structures holds each of their blocks once, in the order in which they
come. So structures that come later change nothing for those before them. -/
namespace Hologram

namespace Palette

/-- The blocks of the live slots in ascending order. -/
def blocks (p : Palette) : List Block :=
  p.live.map Prod.snd

end Palette

namespace Assembly

open Palette

namespace Index

/-- What an index has gathered from the blocks that it has seen. -/
def Gathers (index : Index) (seen : List Block) : Prop :=
  Palette.Gathers {} index.palette index.slots seen

theorem gathers_empty : ({} : Index).Gathers [] :=
  Palette.Gathers.nil {}

theorem Gathers.slotOf {index : Index} {seen : List Block} (h : index.Gathers seen)
    (block : Block) : (index.slotOf block).2.Gathers (seen ++ [block]) := by
  unfold Index.slotOf
  cases hslot : index.slots.get? block.key with
  | some slot => exact (Palette.Gathers.found h hslot).1
  | none => exact (Palette.Gathers.missed h hslot).1

theorem Gathers.slotsOf {index : Index} {seen : List Block} (h : index.Gathers seen)
    (slots : List (Option Block)) :
    (index.slotsOf slots).2.Gathers (seen ++ slots.filterMap id) := by
  induction slots generalizing index seen with
  | nil => simpa [Index.slotsOf] using h
  | cons slot rest ih =>
    cases slot with
    | none => exact ih h
    | some block =>
      have hrest := ih (h.slotOf block)
      rw [List.append_assoc] at hrest
      exact hrest

end Index

/-- An index gathers the blocks of structures in their order. -/
theorem Index.Gathers.unite {index : Index} {seen : List Block} (h : index.Gathers seen)
    (structures : List Structure) :
    (Assembly.unite index structures).1.Gathers
      (seen ++ structures.flatMap fun s => s.palette.blocks) := by
  induction structures generalizing index seen with
  | nil => simpa [Assembly.unite] using h
  | cons s rest ih =>
    have hrest := ih (h.slotsOf s.palette.slots.toList)
    rw [← map_snd_live, List.append_assoc] at hrest
    exact hrest

theorem gathers_unite (structures : List Structure) :
    Palette.Gathers {} (unite {} structures).1.palette (unite {} structures).1.slots
      (structures.flatMap fun s => s.palette.blocks) :=
  Index.gathers_empty.unite structures

/-- Structures that come later are united behind what the others leave. -/
theorem unite_append (index : Index) (structures more : List Structure) :
    (unite index (structures ++ more)).1 = (unite (unite index structures).1 more).1 ∧
      (unite index (structures ++ more)).2.1 =
        (unite index structures).2.1 ++ (unite (unite index structures).1 more).2.1 := by
  induction structures generalizing index with
  | nil => exact ⟨rfl, rfl⟩
  | cons s rest ih =>
    obtain ⟨hindex, hlayers⟩ := ih (index.slotsOf s.palette.slots.toList).2
    exact ⟨hindex, congrArg _ hlayers⟩

theorem length_unite (index : Index) (structures : List Structure) :
    (unite index structures).2.1.length = structures.length := by
  induction structures generalizing index with
  | nil => rfl
  | cons s rest ih => exact congrArg Nat.succ (ih _)

theorem ofStructures_of_length_ne_one {structures : List Structure} (h : structures.length ≠ 1) :
    (ofStructures structures).1.palette = (unite {} structures).1.palette ∧
      (ofStructures structures).1.structures = (unite {} structures).2.1 := by
  match structures with
  | [] => exact ⟨rfl, rfl⟩
  | [single] => exact absurd rfl h
  | first :: second :: rest => exact ⟨rfl, rfl⟩

/-- Unless there is a single structure, the palette in common holds the blocks of all structures in
the order in which they come, without those that have an equal one before them. When there are two
structures or more, others that come after them leave their slots and their layers as they are. -/
theorem ofStructures_union {structures : List Structure} (h : structures.length ≠ 1) :
    (ofStructures structures).1.palette.slots.toList =
        (structures.flatMap fun s => s.palette.blocks).eraseDups.map some ∧
      (∀ i j a b, (ofStructures structures).1.palette.block? i = some a →
        (ofStructures structures).1.palette.block? j = some b → (a == b) = true → i = j) ∧
      ∀ more, 2 ≤ structures.length →
        (ofStructures structures).1.palette.slots.toList <+:
            (ofStructures (structures ++ more)).1.palette.slots.toList ∧
          (ofStructures structures).1.structures =
            (ofStructures (structures ++ more)).1.structures.take structures.length := by
  obtain ⟨hpalette, hlayers⟩ := ofStructures_of_length_ne_one h
  have hgathers := gathers_unite structures
  refine ⟨hpalette ▸ hgathers.slots_eq, fun i j a b hi hj hab => ?_, fun more htwo => ?_⟩
  · rw [hpalette, ← Nat.zero_add i] at hi
    rw [hpalette, ← Nat.zero_add j] at hj
    exact FirstSeen.eraseDups_getElem?_inj ((hgathers.block?_add i).symm.trans hi)
      ((hgathers.block?_add j).symm.trans hj) hab
  · have hmore : (structures ++ more).length ≠ 1 := by
      rw [List.length_append]
      omega
    obtain ⟨hpalette', hlayers'⟩ := ofStructures_of_length_ne_one hmore
    constructor
    · rw [hpalette, hpalette', hgathers.slots_eq, (gathers_unite (structures ++ more)).slots_eq,
        List.flatMap_append]
      exact (FirstSeen.eraseDups_prefix_append _ _).map some
    · rw [hlayers, hlayers', (unite_append {} structures more).2,
        List.take_append_of_le_length (length_unite {} structures).ge,
        List.take_of_length_le (length_unite {} structures).le]

/-- Stone and dirt in two orders, a dead slot between them, and a third structure that comes
after. -/
theorem ofStructures_union_reordered :
    let first : Structure := ⟨"a", ⟨1, 1, 2⟩, .ofBlocks [⟨"stone", [], none⟩, ⟨"dirt", [], none⟩],
      [#[0, 1]], 0⟩
    let second : Structure := ⟨"b", ⟨1, 1, 2⟩,
      ⟨#[some ⟨"dirt", [], none⟩, none, some ⟨"stone", [], none⟩]⟩, [#[0, 2]], 0⟩
    let third : Structure := ⟨"c", ⟨1, 1, 1⟩, .ofBlocks [⟨"bell", [], none⟩], [#[0]], 0⟩
    [first, second].length ≠ 1 ∧
      (ofStructures [first, second]).1.palette.slots.toList =
        ([first, second].flatMap fun s => s.palette.blocks).eraseDups.map some ∧
      (∀ i j a b, (ofStructures [first, second]).1.palette.block? i = some a →
        (ofStructures [first, second]).1.palette.block? j = some b → (a == b) = true → i = j) ∧
      2 ≤ [first, second].length ∧
      (ofStructures [first, second]).1.palette.slots.toList <+:
          (ofStructures ([first, second] ++ [third])).1.palette.slots.toList ∧
        (ofStructures [first, second]).1.structures =
          (ofStructures ([first, second] ++ [third])).1.structures.take 2 := by
  intro first second third
  have hlength : [first, second].length ≠ 1 := by decide
  obtain ⟨hslots, hequal, hmore⟩ := ofStructures_union hlength
  exact ⟨hlength, hslots, hequal, Nat.le_refl 2, hmore [third] (Nat.le_refl 2)⟩

end Assembly
end Hologram
