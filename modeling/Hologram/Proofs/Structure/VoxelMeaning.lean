import Hologram.Proofs.Outcome
import Hologram.Proofs.Structure.Block
import Hologram.Proofs.Structure.Folding

/-! Cleaning a structure keeps what its voxels stand for, whatever slots they refer to
afterwards. -/
namespace Hologram

namespace SavedBlock

/-- A block name that does not begin with the namespace of the game, unless it did so twice. -/
def plainName (name : String) : String :=
  if "minecraft:".toList <+: name.toList then String.ofList (name.toList.drop 10) else name

/-- What a saved block is at present, unless its name is one to leave out. -/
def current? (config : Config) (upgrader : Upgrader) (b : SavedBlock) : Option Block := do
  let current ← (upgrader.updateIfOutdated b).toOption
  if config.ignoresBlock (plainName current.name) then none
  else return ⟨plainName current.name, current.states, current.entityData⟩

theorem isPrefixOf?_eq_some {start whole rest : List Char} :
    start.isPrefixOf? whole = some rest ↔ start ++ rest = whole := by
  induction start generalizing whole with
  | nil => simp [List.isPrefixOf?, eq_comm]
  | cons c start ih =>
    cases whole with
    | nil => simp [List.isPrefixOf?]
    | cons d whole => by_cases hcd : c = d <;> simp [List.isPrefixOf?, hcd, ih]

theorem shortName_eq (name : String) : shortName name = plainName name := by
  unfold shortName plainName gameNamespace
  split_ifs with hstart
  · obtain ⟨rest, hrest⟩ := hstart
    rw [isPrefixOf?_eq_some.mpr hrest, ← hrest]
    rfl
  · cases h : "minecraft:".toList.isPrefixOf? name.toList with
    | some rest => exact absurd ⟨rest, isPrefixOf?_eq_some.mp h⟩ hstart
    | none => rfl

/-- A block that has a clean form can be brought up to date. -/
theorem updateIfOutdated_of_cleaned {config : Config} {upgrader : Upgrader} {b : SavedBlock}
    {entry : Nat} {slot : Option Block} (h : b.cleaned config upgrader entry = .ok slot) :
    ∃ current, upgrader.updateIfOutdated b = .ok current := by
  unfold cleaned at h
  split_ifs at h with hname
  · contradiction
  obtain ⟨current, hcurrent, -⟩ := bind_eq_ok.mp h
  exact ⟨current, hcurrent⟩

theorem current?_of_cleaned {config : Config} {upgrader : Upgrader} {b : SavedBlock} {entry : Nat}
    {slot : Option Block} (h : b.cleaned config upgrader entry = .ok slot) :
    b.current? config upgrader = slot := by
  unfold cleaned at h
  split_ifs at h with hname
  · contradiction
  obtain ⟨current, hcurrent, h⟩ := bind_eq_ok.mp h
  rw [shortName_eq] at h
  dsimp only at h
  unfold current?
  rw [hcurrent]
  change (if config.ignoresBlock (plainName current.name) then none
    else some (⟨plainName current.name, current.states, current.entityData⟩ : Block)) = slot
  split_ifs at h ⊢ <;> exact pure_eq_ok.mp h

end SavedBlock

namespace SavedStructure

/-- The data of an entity that a voxel of the primary layer has of its own: what is saved for it,
without the position, unless it is of a kind that is left out. -/
def ownData? (config : Config) (s : SavedStructure) (offset : Nat) : Option (Dictionary Json) := do
  let data ← (s.payloads.entries.lookup offset).join
  let isLeftOut := match data.get? "id" with
    | some (.string id) => config.ignoredBlockEntities.contains id
    | _ => false
  if isLeftOut then none
  else return List.filter (fun member => member.1 ∉ ["x", "y", "z"]) data

/-- The block that a reference of a saved structure stands for. -/
def referred? (config : Config) (upgrader : Upgrader) (s : SavedStructure) (reference : Int) :
    Option Block := do
  let saved ← if reference < 0 then none else s.palette[reference.toNat]?
  saved.current? config upgrader

/-- The block that a voxel of a saved structure stands for. -/
def block? (config : Config) (upgrader : Upgrader) (s : SavedStructure) (number offset : Nat) :
    Option Block := do
  let layer ← s.layers[number]?
  let reference ← layer[offset]?
  let block ← s.referred? config upgrader reference
  let own? := if number = 0 then s.ownData? config offset else none
  return match own? with
    | some data => block.withEntityData data
    | none => block

end SavedStructure

namespace Structure

/-- The block that a voxel of a structure with a clean palette stands for. -/
def block? (s : Structure) (number offset : Nat) : Option Block := do
  let layer ← s.layers[number]?
  let reference ← layer[offset]?
  s.palette.get? reference

variable {config : Config} {upgrader : Upgrader}

/-- The clean palette has the slots of the saved one. -/
theorem cleanPalette_spec {blocks : List SavedBlock} {palette : Palette}
    (h : cleanPalette config upgrader blocks = .ok palette) :
    palette.size = blocks.length ∧
      (∀ slot, palette.block? slot = blocks[slot]?.bind (SavedBlock.current? config upgrader)) ∧
      ∀ saved ∈ blocks, ∃ current, upgrader.updateIfOutdated saved = .ok current := by
  obtain ⟨slots, hslots, h⟩ := bind_eq_ok.mp h
  rw [← pure_eq_ok.mp h]
  have hall := forall₂_of_mapM_eq_ok hslots
  have hlength : slots.length = blocks.length := by
    rw [← hall.length_eq, List.length_zipIdx]
  have hcleaned : ∀ (slot : Nat) (hblocks : slot < blocks.length) (hslots : slot < slots.length),
      blocks[slot].cleaned config upgrader slot = .ok slots[slot] := by
    intro slot hblocks hslots
    have hget := hall.get (i := slot) (by simpa using hblocks) hslots
    simpa using hget
  refine ⟨by simpa [Palette.size] using hlength, fun slot => ?_, fun saved hsaved => ?_⟩
  · cases hb : blocks[slot]? with
    | none =>
      rw [List.getElem?_eq_none_iff] at hb
      simp [Palette.block?, List.getElem?_eq_none (hlength ▸ hb)]
    | some b =>
      obtain ⟨hslot, rfl⟩ := List.getElem?_eq_some_iff.mp hb
      have hslots : slot < slots.length := hlength ▸ hslot
      simp [Palette.block?, List.getElem?_eq_getElem hslots,
        SavedBlock.current?_of_cleaned (hcleaned slot hslot hslots)]
  · obtain ⟨slot, hslot, rfl⟩ := List.getElem_of_mem hsaved
    exact SavedBlock.updateIfOutdated_of_cleaned (hcleaned slot hslot (hlength ▸ hslot))

/-- What cleaning a structure comes to. The slots that die are those that voxels were moved away
from and that no voxel refers to any more. -/
theorem ofSaved_retires {s : SavedStructure} {n : Structure} {reports : List Report}
    (h : ofSaved config upgrader s = .ok (n, reports)) :
    ∃ primary others palette folded, ∃ retired : List Nat, s.layers = primary :: others ∧
      cleanPalette config upgrader s.palette = .ok palette ∧
      s.payloads.entries.foldl (Folding.add config) { palette, primary } = folded ∧
      n.layers = folded.primary :: others ∧
      n.palette = retired.foldl Palette.bury folded.palette ∧
      ∀ slot, slot ∈ retired ↔
        slot < folded.palette.size ∧ slot ∈ folded.bases ∧ uses n.layers slot = false := by
  unfold ofSaved at h
  cases hlayers : s.layers with
  | nil =>
    rw [hlayers] at h
    contradiction
  | cons primary others =>
    rw [hlayers] at h
    dsimp only at h
    split at h
    · contradiction
    · obtain ⟨palette, hpalette, h⟩ := bind_eq_ok.mp h
      cases h
      refine ⟨primary, others, palette, _, _, rfl, hpalette, rfl, rfl, rfl, fun slot => ?_⟩
      rw [List.partition_eq_filter_filter]
      simp [and_comm]

theorem ofSaved_cases {s : SavedStructure} {n : Structure} {reports : List Report}
    (h : ofSaved config upgrader s = .ok (n, reports)) :
    ∃ primary others palette folded, ∃ retired : List Nat, s.layers = primary :: others ∧
      cleanPalette config upgrader s.palette = .ok palette ∧
      s.payloads.entries.foldl (Folding.add config) { palette, primary } = folded ∧
      n.layers = folded.primary :: others ∧
      n.palette = retired.foldl Palette.bury folded.palette ∧
      ∀ slot ∈ retired, uses n.layers slot = false := by
  obtain ⟨primary, others, palette, folded, retired, hlayers, hclean, hfolded, hnew, hpalette,
    hretired⟩ := ofSaved_retires h
  exact ⟨primary, others, palette, folded, retired, hlayers, hclean, hfolded, hnew, hpalette,
    fun slot hslot => ((hretired slot).mp hslot).2.2⟩

/-- A slot that dies is one that no voxel refers to. -/
theorem get?_of_mem {palette : Palette} {retired : List Nat} {layers : List Layer} {layer : Layer}
    {reference : Int} (hretired : ∀ slot ∈ retired, uses layers slot = false)
    (hlayer : layer ∈ layers) (hr : reference ∈ layer) :
    (retired.foldl Palette.bury palette).get? reference = palette.get? reference := by
  unfold Palette.get?
  split_ifs with hneg
  · rfl
  · refine Palette.block?_foldl_bury retired palette fun hslot => ?_
    have huses : uses layers reference.toNat = true := by
      refine List.any_eq_true.mpr ⟨layer, hlayer, ?_⟩
      rw [Int.toNat_of_nonneg (by omega)]
      exact Array.contains_iff_mem.mpr hr
    rw [hretired _ hslot] at huses
    contradiction

variable (config) in
/-- The data that move a voxel are those that it has of its own, in some order. -/
theorem ownData?_cases {s : SavedStructure} {offset : Nat} {data? : Option (Dictionary Json)}
    (h : s.payloads.entries.lookup offset = some data?)
    (hd : ∀ data, data? = some data → data.Distinct) :
    (Folding.moving? config data? = none ∧ s.ownData? config offset = none) ∨
      ∃ moved own, Folding.moving? config data? = some moved ∧
        s.ownData? config offset = some own ∧ moved.Distinct ∧ moved.Perm own := by
  cases data? with
  | none =>
    refine .inl ⟨rfl, ?_⟩
    rw [SavedStructure.ownData?, h]
    rfl
  | some data =>
    have hperm := Dictionary.foldl_erase_perm (hd data rfl) ["x", "y", "z"]
    have hown : s.ownData? config offset = if Folding.isIgnored config data then none
        else some (List.filter (fun member => member.1 ∉ ["x", "y", "z"]) data) := by
      rw [SavedStructure.ownData?, h]
      rfl
    cases hi : Folding.isIgnored config data with
    | true => 
      refine .inl ⟨by simp [Folding.moving?, Option.filter, hi], ?_⟩
      rw [hown, hi]
      rfl
    | false =>
      refine .inr ⟨Folding.essential data, _, by simp [Folding.moving?, Option.filter, hi],
        by rw [hown, hi]; rfl, ?_, hperm⟩
      exact ((hd data rfl).filter _).perm hperm.symm

/-- In the clean palette a reference leads to what it stands for in the saved one. -/
theorem get?_cleanPalette {s : SavedStructure} {palette : Palette}
    (h : cleanPalette config upgrader s.palette = .ok palette) (reference : Int) :
    palette.get? reference = s.referred? config upgrader reference := by
  unfold Palette.get? SavedStructure.referred?
  split_ifs with hneg
  · rfl
  · exact (cleanPalette_spec h).2.1 reference.toNat

theorem eq_none_iff_of_beq {a b : Option Block} (h : (a == b) = true) : a = none ↔ b = none := by
  cases a <;> cases b <;> simp_all

end Structure
end Hologram
