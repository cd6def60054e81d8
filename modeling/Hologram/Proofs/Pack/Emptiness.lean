import Hologram.Proofs.Pack.Making
import Hologram.Proofs.Structure.Assembly
import Hologram.Proofs.Structure.Names
import Hologram.Proofs.Structure.Union

/-! Packs without blocks. Whether there is anything to make a pack of is asked of the palettes, so a
pack can be made although no voxel of it refers to a block. -/
namespace Hologram

namespace Palette

/-- Some voxel refers to a live slot. -/
def IsUsed (p : Palette) (layers : List Layer) : Prop :=
  ∃ layer ∈ layers, ∃ reference ∈ layer, p.isLive reference = true

theorem isUsed_congr {p q : Palette} {layers : List Layer}
    (h : ∀ layer ∈ layers, ∀ reference ∈ layer, p.get? reference = q.get? reference) :
    p.IsUsed layers ↔ q.IsUsed layers := by
  refine exists_congr fun layer => and_congr_right fun hlayer => ?_
  refine exists_congr fun reference => and_congr_right fun hr => ?_
  rw [isLive, isLive, h layer hlayer reference hr]

theorem liveCount_ne_zero_iff {p : Palette} :
    p.liveCount ≠ 0 ↔ ∃ slot block, p.block? slot = some block := by
  unfold liveCount block?
  rw [← Nat.pos_iff_ne_zero, List.countP_pos_iff]
  constructor
  · rintro ⟨slot, hslot, hlive⟩
    obtain ⟨block, rfl⟩ := Option.isSome_iff_exists.mp hlive
    obtain ⟨number, hnumber⟩ := List.mem_iff_getElem?.mp hslot
    exact ⟨number, block, by simpa [Option.join_eq_some_iff] using hnumber⟩
  · rintro ⟨number, block, hnumber⟩
    rw [Option.join_eq_some_iff] at hnumber
    exact ⟨some block, Array.mem_toList_iff.mpr (Array.mem_of_getElem? hnumber), rfl⟩

end Palette

namespace Folding

variable {config : Config}

theorem Remembers.add {f : Folding} (h : f.Remembers)
    (entry : Nat × Option (Dictionary Json)) : (f.add config entry).Remembers := by
  rcases add_cases config f entry with hsame | ⟨base, block, data, -, -, hmove⟩
  · rwa [hsame]
  · rw [hmove]
    exact h.slotOf _

/-- A voxel that moves has a block before and after, so one payload leaves none without. -/
theorem isUsed_add {f : Folding} (h : f.Remembers) (entry : Nat × Option (Dictionary Json))
    (others : List Layer) : (f.add config entry).palette.IsUsed ((f.add config entry).primary ::
      others) ↔ f.palette.IsUsed (f.primary :: others) := by
  rcases add_cases config f entry with hsame | ⟨base, block, data, hr, hblock, hmove⟩
  · rw [hsame]
  · rw [hmove]
    obtain ⟨heir, hheir, -⟩ := block?_slotOf h (block.withEntityData data)
    obtain ⟨hoffset, -⟩ := Array.getElem?_eq_some_iff.mp hr
    have hmoved : (f.move entry.1 base (block.withEntityData data)).primary[entry.1]? =
        some ((f.slotOf (block.withEntityData data)).1 : Int) := by
      simp [move, hoffset]
    refine iff_of_true ⟨_, List.mem_cons_self, _, Array.mem_of_getElem? hmoved, ?_⟩
      ⟨_, List.mem_cons_self, _, Array.mem_of_getElem? hr, ?_⟩
    · rw [Palette.isLive, Palette.get?_natCast]
      exact Option.isSome_iff_exists.mpr ⟨heir, hheir⟩
    · rw [Palette.isLive, Palette.get?_natCast, hblock, Option.isSome_some]

theorem isUsed_foldl {f : Folding} (h : f.Remembers)
    (entries : List (Nat × Option (Dictionary Json))) (others : List Layer) :
    (entries.foldl (add config) f).palette.IsUsed
        ((entries.foldl (add config) f).primary :: others) ↔
      f.palette.IsUsed (f.primary :: others) := by
  induction entries generalizing f with
  | nil => exact Iff.rfl
  | cons entry rest ih => exact (ih (h.add entry)).trans (isUsed_add h entry others)

end Folding

namespace Structure

variable {config : Config} {upgrader : Upgrader}

/-- A clean structure has a voxel with a block exactly when a saved voxel refers to an entry that is
kept. A reference behind the saved palette makes no difference: it can only come to lead to a slot
that was added for a voxel with a block. -/
theorem isUsed_of_ofSaved {s : SavedStructure} {n : Structure} {reports : List Report}
    (h : ofSaved config upgrader s = .ok (n, reports)) :
    n.palette.IsUsed n.layers ↔ ∃ layer ∈ s.layers, ∃ reference ∈ layer,
      (s.referred? config upgrader reference).isSome = true := by
  obtain ⟨primary, others, palette, folded, retired, hlayers, hclean, rfl, hnew, hpalette,
    hretired⟩ := ofSaved_cases h
  -- no voxel refers to a slot that died, so the palette may keep them all
  rw [hpalette, Palette.isUsed_congr fun _ hlayer _ hr => get?_of_mem hretired hlayer hr, hnew,
    Folding.isUsed_foldl fun _ _ hslot => by contradiction, ← hlayers]
  simp only [Palette.IsUsed, Palette.isLive, get?_cleanPalette hclean]

/-- A clean palette has a block exactly when an entry of what was saved is kept. -/
theorem exists_block?_iff_of_ofSaved {s : SavedStructure} {n : Structure} {reports : List Report}
    (h : ofSaved config upgrader s = .ok (n, reports)) :
    (∃ slot block, n.palette.block? slot = some block) ↔
      ∃ b ∈ s.palette, (b.current? config upgrader).isSome = true := by
  simp only [Option.isSome_iff_exists]
  constructor
  · rintro ⟨slot, block, hblock⟩
    obtain ⟨b, hb, current, hcurrent, hname, hkept⟩ :=
      (hasName_of_ofSaved h).mp ⟨slot, block, hblock, rfl⟩
    exact ⟨b, hb, _,
      SavedBlock.current?_eq_some_iff.mpr ⟨current, hcurrent, hname ▸ hkept, rfl⟩⟩
  · rintro ⟨b, hb, block, hblock⟩
    obtain ⟨current, hcurrent, hkept, rfl⟩ := SavedBlock.current?_eq_some_iff.mp hblock
    obtain ⟨slot, found, hfound, -⟩ :=
      (hasName_of_ofSaved h).mpr ⟨b, hb, current, hcurrent, rfl, hkept⟩
    exact ⟨slot, found, hfound⟩

end Structure

namespace Assembly

/-- A voxel with a block keeps one under the palette in common, and one without gets none. -/
theorem isLive_iff_of_carries {own united : Palette} {reference carried : Int}
    (h : Carries own united reference carried) :
    own.isLive reference = true ↔ united.isLive carried = true := by
  have hown : own.isLive reference = true ↔ own.get? reference ≠ none :=
    Option.isSome_iff_ne_none
  rw [hown, ne_eq, ← h.missing]
  constructor
  · exact h.live.resolve_left
  · rintro hlive rfl
    contradiction

theorem LayersCarry.isUsed_iff {united : Palette} {s : Structure} {layers : List Layer}
    (h : LayersCarry united s layers) : s.palette.IsUsed s.layers ↔ united.IsUsed layers := by
  refine exists_mem_iff_of_forall₂ (h.imp fun layer carried hlayer => ?_)
  simpa only [Array.mem_toList_iff] using
    exists_mem_iff_of_forall₂ (hlayer.imp fun _ _ hr => isLive_iff_of_carries hr)

/-- Every block of the palette in common is one of some structure. -/
theorem exists_block?_of_ofStructures {structures : List Structure} {slot : Nat} {block : Block}
    (h : (ofStructures structures).1.palette.block? slot = some block) :
    ∃ s ∈ structures, ∃ own, s.palette.block? own = some block := by
  by_cases hone : structures.length = 1
  · obtain ⟨single, rfl⟩ := List.length_eq_one_iff.mp hone
    exact ⟨single, List.mem_singleton_self single, slot, h⟩
  · rw [(ofStructures_of_length_ne_one hone).1, Palette.block?, ← Array.getElem?_toList,
      (gathers_unite structures).slots_eq, Option.join_eq_some_iff] at h
    have hmem : block ∈ (structures.flatMap fun s => s.palette.blocks).eraseDups := by
      simpa using List.mem_of_getElem? h
    obtain ⟨s, hs, hblock⟩ := List.mem_flatMap.mp (FirstSeen.mem_of_mem_eraseDups hmem)
    exact ⟨s, hs, Palette.exists_block?_of_mem_live hblock⟩

end Assembly

namespace Pack

variable {config : Config} {upgrader : Upgrader}

/-- A pack is made only when some palette entry is kept, whether or not a voxel refers to it. Some
voxel of the pack refers to a block exactly when some saved voxel refers to an entry that is kept. -/
theorem live_voxel_of_make {saved : List SavedStructure} {pack : Pack}
    (h : (make config upgrader saved).outcome.1 = .ok pack) :
    (∃ s ∈ saved, ∃ b ∈ s.palette, (b.current? config upgrader).isSome = true) ∧
    ((∃ layers ∈ pack.structures, ∃ layer ∈ layers, ∃ reference ∈ layer,
        pack.palette.isLive reference = true) ↔
      ∃ s ∈ saved, ∃ layer ∈ s.layers, ∃ reference ∈ layer,
        (s.referred? config upgrader reference).isSome = true) := by
  obtain ⟨structures, hgives, -, ⟨hpalette, hlive⟩, hstructures, -⟩ := exists_clean_of_make h
  have hclean := forall₂_of_cleanAll hgives
  constructor
  · obtain ⟨slot, block, hblock⟩ := Palette.liveCount_ne_zero_iff.mp hlive
    obtain ⟨n, hn, own, hown⟩ := Assembly.exists_block?_of_ofStructures (hpalette ▸ hblock)
    have hkept := exists_mem_iff_of_forall₂
      (hclean.imp fun s n ⟨reports, hs⟩ => (Structure.exists_block?_iff_of_ofSaved hs).symm)
    exact hkept.mpr ⟨n, hn, own, block, hown⟩
  · have hsaved := exists_mem_iff_of_forall₂
      (hclean.imp fun s n ⟨reports, hs⟩ => (Structure.isUsed_of_ofSaved hs).symm)
    have hcarried := exists_mem_iff_of_forall₂
      ((Assembly.ofStructures_carry structures).imp fun _ _ hlayers => hlayers.isUsed_iff)
    rw [hpalette, hstructures]
    exact (hsaved.trans hcarried).symm

/-- A structure whose only voxel has no block, with a palette entry that nothing refers to. -/
def hollow : SavedStructure where
  size := ⟨1, 1, 1⟩
  palette := [⟨"stone", [], none, none⟩]
  layers := [#[-1]]

/-- A structure without a block beside one whose second layer has one. -/
theorem live_voxel_of_make_hollow :
    let saved : List SavedStructure := [hollow,
      { size := ⟨1, 1, 2⟩
        palette := [⟨"minecraft:air", [], none, none⟩, ⟨"dirt", [], none, none⟩]
        layers := [#[0, -1], #[-1, 1]] }]
    ∃ pack, (make .standard .keep saved).outcome.1 = .ok pack ∧
      (∃ s ∈ saved, ∃ b ∈ s.palette, (b.current? .standard .keep).isSome = true) ∧
      ((∃ layers ∈ pack.structures, ∃ layer ∈ layers, ∃ reference ∈ layer,
          pack.palette.isLive reference = true) ↔
        ∃ s ∈ saved, ∃ layer ∈ s.layers, ∃ reference ∈ layer,
          (s.referred? .standard .keep reference).isSome = true) := by
  intro saved
  have hok : (make .standard .keep saved).outcome.1.toOption.isSome = true := by decide +kernel
  cases h : (make .standard .keep saved).outcome.1 with
  | error e =>
    rw [h] at hok
    contradiction
  | ok pack => exact ⟨pack, rfl, live_voxel_of_make h⟩

/-- So a pack need not have a voxel with a block: the palette of this one is not empty, but all
voxels are. -/
theorem voxel_not_always_live :
    ¬ ∀ (config : Config) (upgrader : Upgrader) (saved : List SavedStructure) (pack : Pack),
      (make config upgrader saved).outcome.1 = .ok pack →
      ∃ layers ∈ pack.structures, ∃ layer ∈ layers, ∃ reference ∈ layer,
        pack.palette.isLive reference = true := by
  intro hall
  have hok : ((make .standard .keep [hollow]).outcome.1.toOption.any fun pack =>
      pack.structures == [[#[-1]]]) = true := by decide +kernel
  cases h : (make .standard .keep [hollow]).outcome.1 with
  | error e =>
    rw [h] at hok
    contradiction
  | ok pack =>
    rw [h] at hok
    have hstructures : pack.structures = [[#[-1]]] := by simpa [Except.toOption] using hok
    obtain ⟨layers, hlayers, layer, hlayer, reference, hr, hlive⟩ := hall _ _ _ pack h
    rw [hstructures] at hlayers
    obtain rfl := List.mem_singleton.mp hlayers
    obtain rfl := List.mem_singleton.mp hlayer
    obtain rfl : reference = -1 := by simpa using hr
    contradiction

end Pack
end Hologram
