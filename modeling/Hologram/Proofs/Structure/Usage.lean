import Hologram.Proofs.Structure.Assembly
import Hologram.Proofs.Structure.Union

/-! What is reported as unused. The slots that are listed are the live ones without a voxel that
refers to them, and under a palette of several structures these hold the blocks that no voxel stood
for before. -/
namespace Hologram

namespace Palette

theorem mem_live {p : Palette} {slot : Nat} {block : Block} :
    (slot, block) ∈ p.live ↔ p.block? slot = some block := by
  unfold live block?
  rw [List.mem_filterMap, ← Array.getElem?_toList, Option.join_eq_some_iff]
  constructor
  · rintro ⟨⟨entry, number⟩, hmem, hentry⟩
    obtain ⟨found, rfl, hpair⟩ := Option.map_eq_some_iff.mp hentry
    cases hpair
    exact List.mk_mem_zipIdx_iff_getElem?.mp hmem
  · intro h
    exact ⟨(some block, slot), List.mk_mem_zipIdx_iff_getElem?.mpr h, rfl⟩

theorem mem_map_fst_live {p : Palette} {slot : Nat} :
    slot ∈ p.live.map Prod.fst ↔ p.isLive slot = true := by
  rw [isLive, get?_natCast, Option.isSome_iff_exists, List.mem_map]
  constructor
  · rintro ⟨⟨number, block⟩, hmem, rfl⟩
    exact ⟨block, mem_live.mp hmem⟩
  · rintro ⟨block, hblock⟩
    exact ⟨(slot, block), mem_live.mpr hblock, rfl⟩

/-- Live slots are listed in ascending order. -/
theorem ascending_live (p : Palette) : (p.live.map Prod.fst).Pairwise (· < ·) := by
  have hnumbers : (p.slots.toList.zipIdx.map Prod.snd).Pairwise (· < ·) := by
    rw [List.zipIdx_map_snd]
    exact List.pairwise_lt_range'
  rw [List.pairwise_map] at hnumbers ⊢
  rw [live, List.pairwise_filterMap]
  refine hnumbers.imp fun hlt entry hentry other hother => ?_
  obtain ⟨block, -, rfl⟩ := Option.map_eq_some_iff.mp hentry
  obtain ⟨block', -, rfl⟩ := Option.map_eq_some_iff.mp hother
  exact hlt

theorem lt_size_of_isLive {p : Palette} {slot : Nat} (h : p.isLive slot = true) :
    slot < p.size := by
  rw [isLive, get?_natCast] at h
  by_contra hge
  rw [block?, Array.getElem?_eq_none (Nat.not_lt.mp hge)] at h
  contradiction

end Palette

namespace Assembly

/-- One reference marks its own slot and no other. -/
theorem getElem?_mark (marks : Array Bool) (reference : Int) (slot : Nat) :
    (mark marks reference)[slot]? =
      if (slot : Int) = reference ∧ slot < marks.size then some true else marks[slot]? := by
  unfold mark
  by_cases hneg : reference < 0
  · rw [if_pos hneg, if_neg (by omega)]
  · rw [if_neg hneg, Array.getElem?_setIfInBounds]
    by_cases hslot : (slot : Int) = reference
    · by_cases hsize : slot < marks.size
      · rw [if_pos (by omega), if_pos (by omega), if_pos ⟨hslot, hsize⟩]
      · rw [if_pos (by omega), if_neg (by omega), if_neg (by omega),
          Array.getElem?_eq_none (Nat.not_lt.mp hsize)]
    · rw [if_neg (by omega), if_neg (fun h => hslot h.1)]

theorem size_mark (marks : Array Bool) (reference : Int) :
    (mark marks reference).size = marks.size := by
  unfold mark
  split_ifs
  · rfl
  · exact Array.size_setIfInBounds

/-- References mark their own slots; a slot that is marked stays marked. -/
theorem getElem?_foldl_mark (references : List Int) (marks : Array Bool) (slot : Nat) :
    (references.foldl mark marks)[slot]? = some true ↔
      ((slot : Int) ∈ references ∧ slot < marks.size) ∨ marks[slot]? = some true := by
  induction references generalizing marks with
  | nil => simp
  | cons reference references ih =>
    rw [List.foldl_cons, ih, size_mark, getElem?_mark, List.mem_cons]
    split_ifs with hfirst
    · exact iff_of_true (.inr rfl) (.inl ⟨.inl hfirst.1, hfirst.2⟩)
    · refine or_congr_left (and_congr_left fun hsize => ?_)
      exact (or_iff_right fun hslot => hfirst ⟨hslot, hsize⟩).symm

/-- Some voxel refers to a slot. -/
def Refers (structures : List (List Layer)) (slot : Nat) : Prop :=
  ∃ layers ∈ structures, ∃ layer ∈ layers, (slot : Int) ∈ layer

/-- The slots that voxels refer to are marked. -/
theorem marksOf_iff {size slot : Nat} {structures : List (List Layer)} (h : slot < size) :
    (marksOf size structures)[slot]? = some true ↔ Refers structures slot := by
  have hmarks : marksOf size structures =
      (structures.flatten.flatMap Array.toList).foldl mark (Array.replicate size false) := by
    rw [marksOf, List.foldl_flatMap]
    simp only [Array.foldl_toList]
  have hrefers : (slot : Int) ∈ structures.flatten.flatMap Array.toList ↔
      Refers structures slot := by
    simp only [List.mem_flatMap, List.mem_flatten, Array.mem_toList_iff, Refers]
    constructor
    · rintro ⟨layer, ⟨layers, hlayers, hlayer⟩, hslot⟩
      exact ⟨layers, hlayers, layer, hlayer, hslot⟩
    · rintro ⟨layers, hlayers, layer, hlayer, hslot⟩
      exact ⟨layer, ⟨layers, hlayers, hlayer⟩, hslot⟩
  rw [hmarks, getElem?_foldl_mark, hrefers, Array.size_replicate, Array.getElem?_replicate,
    if_pos h]
  exact ⟨fun hor => (hor.resolve_right (by decide)).1, fun hslot => .inl ⟨hslot, h⟩⟩

/-- The slots that are listed as unused. -/
theorem mem_unusedSlots {palette : Palette} {structures : List (List Layer)} {slot : Nat} :
    slot ∈ unusedSlots palette structures ↔
      palette.isLive slot = true ∧ ¬ Refers structures slot := by
  rw [unusedSlots, List.mem_filter, Palette.mem_map_fst_live]
  refine and_congr_right fun hlive => ?_
  rw [← marksOf_iff (Palette.lt_size_of_isLive hlive), Bool.not_eq_true']
  cases (marksOf palette.size structures)[slot]? <;> simp

theorem ascending_unusedSlots (palette : Palette) (structures : List (List Layer)) :
    (unusedSlots palette structures).Pairwise (· < ·) :=
  (Palette.ascending_live palette).filter _

/-- Some voxel stands for a block equal to a given one in the palette of its own structure. -/
def StandsFor (structures : List Structure) (block : Block) : Prop :=
  ∃ s ∈ structures, ∃ layer ∈ s.layers, ∃ reference ∈ layer, ∃ own,
    s.palette.get? reference = some own ∧ (own == block) = true

/-- A reference is carried over to a slot when it stood for the block of that slot, provided that
no other slot has an equal one. -/
theorem carried_eq_iff {own united : Palette} {reference carried : Int} {slot : Nat} {block : Block}
    (hunique : ∀ i j a b, united.block? i = some a → united.block? j = some b →
      (a == b) = true → i = j)
    (hslot : united.block? slot = some block) (h : Carries own united reference carried) :
    (∃ b, own.get? reference = some b ∧ (b == block) = true) ↔ (slot : Int) = carried := by
  constructor
  · rintro ⟨b, hb, hequal⟩
    have hcarried : carried ≠ noBlock := fun hnone => by
      rw [h.missing.mp hnone] at hb
      contradiction
    obtain ⟨c, hc⟩ := Option.isSome_iff_exists.mp (h.live.resolve_left hcarried)
    have hsame := h.same
    rw [hc, hb] at hsame
    have hnat : ¬ carried < 0 := fun hneg => by
      rw [Palette.get?_of_neg hneg] at hc
      contradiction
    obtain ⟨number, rfl⟩ := Int.eq_ofNat_of_zero_le (Int.not_lt.mp hnat)
    rw [Palette.get?_natCast] at hc
    rw [hunique slot number block c hslot hc (BEq.symm (BEq.trans (α := Block) hsame hequal))]
  · rintro rfl
    have hsame := h.same
    rw [Palette.get?_natCast, hslot] at hsame
    cases hown : own.get? reference with
    | none =>
      rw [hown] at hsame
      contradiction
    | some b =>
      rw [hown] at hsame
      exact ⟨b, rfl, BEq.symm (α := Block) hsame⟩

/-- Unless there is a single structure, every slot of the palette in common has a block. -/
theorem exists_block?_ofStructures {structures : List Structure} (h : structures.length ≠ 1)
    {slot : Nat} (hslot : slot < (ofStructures structures).1.palette.size) :
    ∃ block, (ofStructures structures).1.palette.block? slot = some block := by
  have hgathers := gathers_unite structures
  rw [(ofStructures_of_length_ne_one h).1] at hslot ⊢
  rw [hgathers.size_eq] at hslot
  rw [← Nat.zero_add slot]
  have hsize : slot < (structures.flatMap fun s => s.palette.blocks).eraseDups.length := by
    rwa [← Nat.zero_add (List.length _)]
  exact ⟨_, (hgathers.block?_add slot).trans (List.getElem?_eq_getElem hsize)⟩

/-- No two slots of it have equal ones. -/
theorem block?_ofStructures_inj {structures : List Structure} (h : structures.length ≠ 1)
    (i j : Nat) (a b : Block) (hi : (ofStructures structures).1.palette.block? i = some a)
    (hj : (ofStructures structures).1.palette.block? j = some b) (hab : (a == b) = true) :
    i = j := by
  have hgathers := gathers_unite structures
  rw [(ofStructures_of_length_ne_one h).1, ← Nat.zero_add i] at hi
  rw [(ofStructures_of_length_ne_one h).1, ← Nat.zero_add j] at hj
  exact FirstSeen.eraseDups_getElem?_inj ((hgathers.block?_add i).symm.trans hi)
    ((hgathers.block?_add j).symm.trans hj) hab

/-- A slot of it is referred to when some voxel stood for its block. -/
theorem standsFor_iff_refers {structures : List Structure} (h : structures.length ≠ 1) {slot : Nat}
    {block : Block} (hslot : (ofStructures structures).1.palette.block? slot = some block) :
    StandsFor structures block ↔ Refers (ofStructures structures).1.structures slot := by
  unfold StandsFor Refers
  refine exists_mem_iff_of_forall₂ ((ofStructures_carry structures).imp fun s layers hlayers => ?_)
  refine exists_mem_iff_of_forall₂ (hlayers.imp fun layer carried hlayer => ?_)
  have hreferences := exists_mem_iff_of_forall₂ (hlayer.imp fun reference number hnumber =>
    carried_eq_iff (block?_ofStructures_inj h) hslot hnumber)
  simpa only [Array.mem_toList_iff, exists_eq_right'] using hreferences

/-- The slots that are reported as unused are listed in ascending order, and they are those that are
live and have no voxel that refers to them. Unless there is a single structure, these are the slots
whose block no voxel of any structure stood for. -/
theorem ofStructures_unused (structures : List Structure) :
    (ofStructures structures).1.unused.Pairwise (· < ·) ∧
      (∀ slot, slot ∈ (ofStructures structures).1.unused ↔
        (ofStructures structures).1.palette.isLive slot = true ∧
          ¬ Refers (ofStructures structures).1.structures slot) ∧
      (structures.length ≠ 1 → ∀ slot < (ofStructures structures).1.palette.size,
        ∃ block, (ofStructures structures).1.palette.block? slot = some block ∧
          (slot ∈ (ofStructures structures).1.unused ↔ ¬ StandsFor structures block)) := by
  have hunused : (ofStructures structures).1.unused =
      unusedSlots (ofStructures structures).1.palette (ofStructures structures).1.structures := rfl
  refine ⟨hunused ▸ ascending_unusedSlots _ _, fun slot => hunused ▸ mem_unusedSlots,
    fun hlength slot hslot => ?_⟩
  obtain ⟨block, hblock⟩ := exists_block?_ofStructures hlength hslot
  refine ⟨block, hblock, ?_⟩
  rw [hunused, mem_unusedSlots, standsFor_iff_refers hlength hblock]
  refine and_iff_right ?_
  rw [Palette.isLive, Palette.get?_natCast, hblock]
  rfl

/-- A bell that only the palettes have, and stone that the second structure alone refers to. -/
theorem ofStructures_unused_bell :
    let first : Structure := ⟨"a", ⟨1, 1, 1⟩, .ofBlocks [⟨"bell", [], none⟩, ⟨"stone", [], none⟩],
      [#[-1]], 0⟩
    let second : Structure := ⟨"b", ⟨1, 1, 1⟩, .ofBlocks [⟨"stone", [], none⟩, ⟨"bell", [], none⟩],
      [#[0]], 0⟩
    [first, second].length ≠ 1 ∧ 0 < (ofStructures [first, second]).1.palette.size ∧
      ∃ block, (ofStructures [first, second]).1.palette.block? 0 = some block ∧
        (0 ∈ (ofStructures [first, second]).1.unused ↔ ¬ StandsFor [first, second] block) := by
  intro first second
  have hlength : [first, second].length ≠ 1 := by decide
  have hsize : 0 < (ofStructures [first, second]).1.palette.size := by decide +kernel
  exact ⟨hlength, hsize, (ofStructures_unused [first, second]).2.2 hlength 0 hsize⟩

end Assembly
end Hologram
