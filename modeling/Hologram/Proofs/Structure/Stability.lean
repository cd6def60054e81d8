import Hologram.Proofs.Structure.Names

/-! A clean structure that is saved and cleaned again. The first time it loses its dead slots, and
from then on nothing changes. -/
namespace Hologram

namespace Palette

@[simp] theorem block?_ofBlocks (blocks : List Block) (slot : Nat) :
    (ofBlocks blocks).block? slot = blocks[slot]? := by
  simp only [block?, ofBlocks, List.getElem?_toArray, List.getElem?_map]
  cases blocks[slot]? <;> rfl

@[simp] theorem size_ofBlocks (blocks : List Block) : (ofBlocks blocks).size = blocks.length := by
  simp [size, ofBlocks]

/-- The blocks of the live slots are what is left without the dead ones. -/
theorem map_snd_live (p : Palette) :
    p.live.map Prod.snd = p.slots.toList.filterMap id := by
  have hsnd : ∀ entry : Option Block × Nat,
      (entry.1.map fun block => (entry.2, block)).map Prod.snd = id entry.1 := by
    rintro ⟨slot, number⟩
    cases slot <;> rfl
  unfold live
  rw [List.map_filterMap, funext hsnd, ← Function.comp_def, ← List.filterMap_map,
    List.zipIdx_map_fst]

theorem map_snd_live_ofBlocks (blocks : List Block) :
    (ofBlocks blocks).live.map Prod.snd = blocks := by
  rw [map_snd_live]
  simp [ofBlocks, List.filterMap_map]

/-- The block of a live slot is found there. -/
theorem exists_block?_of_mem_live {p : Palette} {block : Block}
    (h : block ∈ p.live.map Prod.snd) : ∃ slot, p.block? slot = some block := by
  rw [map_snd_live] at h
  obtain ⟨slot, hslot, rfl⟩ := List.mem_filterMap.mp h
  obtain ⟨number, hnumber⟩ := List.mem_iff_getElem?.mp hslot
  refine ⟨number, ?_⟩
  rw [block?, ← Array.getElem?_toList, hnumber]
  rfl

end Palette

namespace Folding

variable {config : Config}

/-- The slots of a folding have no blocks with names that are left out. -/
def Admits (config : Config) (f : Folding) : Prop :=
  ∀ slot block, f.palette.block? slot = some block → config.ignoresBlock block.name = false

/-- Folding admits no other names, and it leaves the layer as long as it was. -/
theorem Admits.foldl {f : Folding} (h : f.Admits config)
    (entries : List (Nat × Option (Dictionary Json))) :
    (entries.foldl (Folding.add config) f).Admits config ∧
      (entries.foldl (Folding.add config) f).primary.size = f.primary.size := by
  refine ⟨fun slot block hblock => ?_, size_primary_foldl config f entries⟩
  obtain ⟨old, base, hbase, hname⟩ := (hasName_foldl f entries).mp ⟨slot, block, hblock, rfl⟩
  exact hname ▸ h old base hbase

end Folding

namespace SavedBlock

variable {config : Config} {upgrader : Upgrader} {block : Block}

/-- A saved block without a version is up to date. -/
theorem isOutdated_ofBlock (upgrader : Upgrader) (block : Block) :
    upgrader.isOutdated (ofBlock block) = false := by
  cases upgrader <;> rfl

/-- A block that has a name without the namespace of the game, and not one to leave out. -/
structure Stays (config : Config) (block : Block) : Prop where
  named : block.name ≠ ""
  short : ¬ "minecraft:".toList <+: block.name.toList
  kept : config.ignoresBlock block.name = false

theorem cleaned_ofBlock (h : Stays config block) (entry : Nat) :
    (ofBlock block).cleaned config upgrader entry = .ok (some block) := by
  have hname : (ofBlock block).name.isEmpty = false := by simpa [ofBlock] using h.named
  have hshort : shortName block.name = block.name := by
    rw [shortName_eq, plainName, if_neg h.short]
  have hcurrent : upgrader.updateIfOutdated (ofBlock block) = .ok (ofBlock block) := by
    rw [Upgrader.updateIfOutdated, isOutdated_ofBlock, if_neg Bool.false_ne_true]
  unfold cleaned
  rw [hname, if_neg Bool.false_ne_true, hcurrent]
  change (if config.ignoresBlock (shortName block.name) then pure none
    else pure (some (⟨shortName block.name, block.states, block.entityData⟩ : Block))) = _
  rw [hshort, h.kept]
  rfl

end SavedBlock

namespace Structure

/-- The number of a slot among blocks without gaps: no block for a dead slot, and for a live one the
place of its block. -/
def Dense (blocks : List Block) : Option Block → Int → Prop
  | none, number => number = noBlock
  | some block, number => ∃ place : Nat, number = place ∧ blocks[place]? = some block

/-- Counting on from the blocks before them, live slots get the places of their blocks. -/
theorem dense_go (slots : List (Option Block)) (before : List Block) :
    List.Forall₂ (Dense (before ++ slots.filterMap id)) slots
      (denseNumbers.go before.length slots) := by
  induction slots generalizing before with
  | nil => exact .nil
  | cons slot rest ih =>
    cases slot with
    | none => exact .cons rfl (ih before)
    | some block =>
      have hrest := ih (before ++ [block])
      rw [List.length_append, List.append_assoc] at hrest
      exact .cons ⟨before.length, rfl, by simp⟩ hrest

/-- A reference under the new numbers is the place of the block that it led to. -/
theorem dense_renumber (p : Palette) (reference : Int) :
    Dense (p.live.map Prod.snd) (p.get? reference)
      (renumber (denseNumbers p.slots.toList).toArray reference) := by
  have hdense : List.Forall₂ (Dense (p.live.map Prod.snd)) p.slots.toList
      (denseNumbers p.slots.toList) := p.map_snd_live ▸ dense_go p.slots.toList []
  obtain ⟨hlength, hnumbers⟩ := List.forall₂_iff_get.mp hdense
  unfold renumber
  by_cases hneg : reference < 0
  · rw [if_pos hneg, Palette.get?_of_neg hneg]
    rfl
  obtain ⟨slot, rfl⟩ := Int.eq_ofNat_of_zero_le (Int.not_lt.mp hneg)
  rw [if_neg hneg, Int.toNat_natCast, List.getElem?_toArray, Palette.get?_natCast, Palette.block?,
    ← Array.getElem?_toList]
  by_cases hslot : slot < p.slots.toList.length
  · rw [List.getElem?_eq_getElem hslot, List.getElem?_eq_getElem (hlength ▸ hslot)]
    exact hnumbers slot hslot (hlength ▸ hslot)
  · rw [List.getElem?_eq_none (Nat.not_lt.mp hslot),
      List.getElem?_eq_none (hlength ▸ Nat.not_lt.mp hslot)]
    rfl

theorem Dense.get? {blocks : List Block} {slot : Option Block} {number : Int}
    (h : Dense blocks slot number) : (Palette.ofBlocks blocks).get? number = slot := by
  cases slot with
  | none => exact Palette.get?_of_neg (h ▸ by decide)
  | some block =>
    obtain ⟨place, rfl, hblock⟩ := h
    rw [Palette.get?_natCast, Palette.block?_ofBlocks, hblock]

/-- Without dead slots a slot keeps its number. -/
theorem denseNumbers_go_map_some (blocks : List Block) (next : Nat) :
    denseNumbers.go next (blocks.map some) = (List.range' next blocks.length).map Nat.cast := by
  induction blocks generalizing next with
  | nil => rfl
  | cons block rest ih =>
    rw [List.length_cons, List.range'_succ, List.map_cons, List.map_cons, ← ih (next + 1)]
    rfl

theorem Dense.renumber {blocks : List Block} {slot : Option Block} {number : Int}
    (h : Dense blocks slot number) :
    Structure.renumber (denseNumbers (Palette.ofBlocks blocks).slots.toList).toArray number =
      number := by
  have hnumbers : denseNumbers (Palette.ofBlocks blocks).slots.toList =
      (List.range' 0 blocks.length).map Nat.cast := denseNumbers_go_map_some blocks 0
  rw [hnumbers]
  unfold Structure.renumber
  cases slot with
  | none =>
    cases h
    rfl
  | some block =>
    obtain ⟨place, rfl, hblock⟩ := h
    obtain ⟨hplace, -⟩ := List.getElem?_eq_some_iff.mp hblock
    rw [if_neg (by omega)]
    simp [hplace]

/-- What is saved of a structure, cleaned without a change: its blocks, and its layers with new
references. -/
def compact (s : Structure) : Structure where
  name := s.name
  size := s.size
  palette := .ofBlocks (s.palette.live.map Prod.snd)
  layers := s.toSaved.layers

theorem toSaved_palette (s : Structure) :
    s.toSaved.palette = (s.palette.live.map Prod.snd).map SavedBlock.ofBlock := by
  simp [toSaved]

/-- Without dead slots a structure is saved with the references that it has. -/
theorem toSaved_compact (s : Structure) : s.compact.toSaved = s.toSaved := by
  have hlayer : ∀ layer : Layer,
      (layer.map (renumber (denseNumbers s.palette.slots.toList).toArray)).map
          (renumber (denseNumbers s.compact.palette.slots.toList).toArray) =
        layer.map (renumber (denseNumbers s.palette.slots.toList).toArray) := by
    intro layer
    rw [Array.map_map]
    exact Array.map_congr_left fun reference _ => (dense_renumber s.palette reference).renumber
  have hpalette : s.compact.toSaved.palette = s.toSaved.palette := by
    rw [toSaved_palette, toSaved_palette, compact, Palette.map_snd_live_ofBlocks]
  have hlayers : s.compact.toSaved.layers = s.toSaved.layers := by
    change (s.layers.map _).map _ = s.layers.map _
    rw [List.map_map]
    exact List.map_congr_left fun layer _ => hlayer layer
  change SavedStructure.mk s.name s.size s.compact.toSaved.palette s.compact.toSaved.layers _ = _
  rw [hpalette, hlayers]
  rfl

/-- Every voxel stands for the block that it stood for. -/
theorem block?_compact (s : Structure) (number offset : Nat) :
    s.compact.block? number offset = s.block? number offset := by
  have hget : ∀ reference, s.compact.palette.get?
      (renumber (denseNumbers s.palette.slots.toList).toArray reference) =
        s.palette.get? reference := fun reference => (dense_renumber s.palette reference).get?
  unfold block?
  change (s.layers.map _)[number]?.bind _ = _
  rw [List.getElem?_map]
  cases s.layers[number]? with
  | none => rfl
  | some layer =>
    change (layer.map _)[offset]?.bind _ = layer[offset]?.bind _
    rw [Array.getElem?_map]
    cases layer[offset]? with
    | none => rfl
    | some reference => exact hget reference

variable {config : Config} {upgrader : Upgrader}

theorem cleanPalette_map_ofBlock {blocks : List Block}
    (h : ∀ block ∈ blocks, SavedBlock.Stays config block) :
    cleanPalette config upgrader (blocks.map SavedBlock.ofBlock) = .ok (.ofBlocks blocks) := by
  let slot (entry : SavedBlock × Nat) : Option Block :=
    some ⟨entry.1.name, entry.1.states, entry.1.entityData⟩
  have hcleaned : ∀ entry ∈ (blocks.map SavedBlock.ofBlock).zipIdx,
      entry.1.cleaned config upgrader entry.2 = .ok (slot entry) := by
    rintro ⟨saved, entry⟩ hentry
    obtain ⟨block, hblock, rfl⟩ := List.mem_map.mp (List.fst_mem_of_mem_zipIdx hentry)
    exact SavedBlock.cleaned_ofBlock (h block hblock) entry
  have hslots : (blocks.map SavedBlock.ofBlock).zipIdx.map slot = blocks.map some := by
    calc (blocks.map SavedBlock.ofBlock).zipIdx.map slot
        = blocks.zipIdx.map (some ∘ Prod.fst) := by rw [List.zipIdx_map, List.map_map]; rfl
      _ = blocks.map some := by rw [← List.map_map, List.zipIdx_map_fst]
  unfold cleanPalette
  rw [mapM_eq_ok_of_forall hcleaned, hslots]
  rfl

/-- No layer is odd when all have one reference for each voxel. -/
theorem oddLayer?_eq_none_iff {size : Size} {layers : List Layer} :
    oddLayer? size layers = none ↔ ∀ layer ∈ layers, layer.size = size.voxelCount := by
  unfold oddLayer?
  rw [List.find?_eq_none]
  constructor
  · intro h layer hlayer
    obtain ⟨number, hnumber⟩ := List.mem_iff_getElem?.mp hlayer
    simpa using h (layer, number) (List.mk_mem_zipIdx_iff_getElem?.mpr hnumber)
  · rintro h ⟨layer, number⟩ hentry
    simpa using h layer (List.fst_mem_of_mem_zipIdx hentry)

/-- Without payloads no voxel moves and no slot dies. -/
theorem ofSaved_of_no_payloads {s : SavedStructure} {palette : Palette}
    (hpayloads : s.payloads.entries = []) (hlayers : s.layers ≠ [])
    (hodd : oddLayer? s.size s.layers = none)
    (hpalette : cleanPalette config upgrader s.palette = .ok palette)
    (hupgraded : s.palette.countP upgrader.isOutdated = 0) :
    ofSaved config upgrader s = .ok (⟨s.name, s.size, palette, s.layers, 0⟩, []) := by
  have hbases : (List.range palette.size).filter ([] : List Nat).contains = [] :=
    List.filter_eq_nil_iff.mpr fun _ _ => Bool.false_ne_true
  obtain ⟨primary, others, hcons⟩ := List.exists_cons_of_ne_nil hlayers
  unfold ofSaved
  rw [hodd, hupgraded, hpalette, hpayloads, hcons]
  dsimp only [List.foldl_nil, List.map_nil, List.filter_nil]
  rw [ok_bind, hbases]
  rfl

/-- A structure whose blocks may all stay is cleaned by making it compact. -/
theorem ofSaved_toSaved_of_stays {s : Structure} (hlayers : s.layers ≠ [])
    (hsizes : ∀ layer ∈ s.layers, layer.size = s.size.voxelCount)
    (hstays : ∀ block ∈ s.palette.live.map Prod.snd, SavedBlock.Stays config block) :
    ofSaved config upgrader s.toSaved = .ok (s.compact, []) := by
  have hpalette : cleanPalette config upgrader s.toSaved.palette = .ok s.compact.palette :=
    s.toSaved_palette ▸ cleanPalette_map_ofBlock hstays
  have hodd : oddLayer? s.toSaved.size s.toSaved.layers = none := by
    refine oddLayer?_eq_none_iff.mpr fun layer hlayer => ?_
    obtain ⟨original, horiginal, rfl⟩ := List.mem_map.mp hlayer
    exact Array.size_map.trans (hsizes original horiginal)
  have hupgraded : s.toSaved.palette.countP upgrader.isOutdated = 0 := by
    rw [toSaved_palette, List.countP_eq_zero]
    intro saved hsaved
    obtain ⟨block, -, rfl⟩ := List.mem_map.mp hsaved
    rw [SavedBlock.isOutdated_ofBlock]
    exact Bool.false_ne_true
  rw [ofSaved_of_no_payloads rfl (by simpa [toSaved] using hlayers) hodd hpalette hupgraded]
  rfl

/-- The blocks of a clean palette have names that are not left out. -/
theorem admits_cleanPalette {blocks : List SavedBlock} {palette : Palette}
    (h : cleanPalette config upgrader blocks = .ok palette) (primary : Layer) :
    ({ palette, primary } : Folding).Admits config := by
  intro slot block hblock
  change palette.block? slot = some block at hblock
  rw [(cleanPalette_spec h).2.1] at hblock
  obtain ⟨saved, -, hcurrent⟩ := Option.bind_eq_some_iff.mp hblock
  obtain ⟨current, -, hcurrent⟩ := Option.bind_eq_some_iff.mp hcurrent
  split_ifs at hcurrent with hignored
  cases hcurrent
  exact Bool.not_eq_true _ ▸ hignored

/-- A structure is accepted when its layers have one reference for each voxel, and it keeps its
size. -/
theorem size_of_ofSaved {s : SavedStructure} {n : Structure} {reports : List Report}
    (h : ofSaved config upgrader s = .ok (n, reports)) :
    n.size = s.size ∧ ∀ layer ∈ s.layers, layer.size = s.size.voxelCount := by
  unfold ofSaved at h
  cases hlayers : s.layers with
  | nil =>
    rw [hlayers] at h
    contradiction
  | cons primary others =>
    rw [hlayers] at h
    dsimp only at h
    split at h
    · contradiction
    · next hodd =>
      obtain ⟨palette, -, h⟩ := bind_eq_ok.mp h
      cases h
      exact ⟨rfl, oddLayer?_eq_none_iff.mp (Option.eq_none_iff_forall_ne_some.mpr
        fun found hfound => hodd found.1 found.2 hfound)⟩

/-- What a clean structure is like: its layers have one reference for each voxel, and its blocks
have names that are not left out. -/
theorem clean_of_ofSaved {s : SavedStructure} {n : Structure} {reports : List Report}
    (h : ofSaved config upgrader s = .ok (n, reports)) :
    n.layers ≠ [] ∧ (∀ layer ∈ n.layers, layer.size = n.size.voxelCount) ∧
      ∀ slot block, n.palette.block? slot = some block →
        config.ignoresBlock block.name = false := by
  obtain ⟨hsize, hlayers⟩ := size_of_ofSaved h
  obtain ⟨primary, others, palette, folded, retired, hcons, hclean, hfolded, hnew, hpalette, -⟩ :=
    ofSaved_cases h
  obtain ⟨hadmits, hprimary⟩ := (admits_cleanPalette hclean primary).foldl s.payloads.entries
  rw [hfolded] at hadmits hprimary
  rw [hcons, List.forall_mem_cons] at hlayers
  rw [hnew, hsize]
  refine ⟨List.cons_ne_nil _ _, List.forall_mem_cons.mpr ⟨?_, hlayers.2⟩, ?_⟩
  · exact hprimary.trans hlayers.1
  · intro slot block hblock
    rw [hpalette] at hblock
    exact hadmits slot block (Palette.block?_of_foldl_bury retired hblock)

/-- A clean structure whose blocks have names without the namespace of the game can be saved and
cleaned again. It loses its dead slots and nothing else: no block is brought up to date, and every
voxel stands for the block that it stood for. From then on nothing changes. -/
theorem ofSaved_toSaved {s : SavedStructure} {once : Structure} {reports : List Report}
    (h : ofSaved config upgrader s = .ok (once, reports))
    (hnames : ∀ entry ∈ once.palette.live,
      entry.2.name ≠ "" ∧ ¬ "minecraft:".toList <+: entry.2.name.toList) :
    ∃ twice, ofSaved config upgrader once.toSaved = .ok (twice, []) ∧
      twice.upgraded = 0 ∧
      (∀ slot < twice.palette.size, twice.palette.isLive slot = true) ∧
      twice.layers.map Array.size = once.layers.map Array.size ∧
      (∀ number offset, twice.block? number offset = once.block? number offset) ∧
      ofSaved config upgrader twice.toSaved = .ok (twice, []) := by
  obtain ⟨hlayers, hsizes, hkept⟩ := clean_of_ofSaved h
  have hstays : ∀ block ∈ once.palette.live.map Prod.snd, SavedBlock.Stays config block := by
    intro block hblock
    obtain ⟨slot, hslot⟩ := Palette.exists_block?_of_mem_live hblock
    obtain ⟨entry, hentry, rfl⟩ := List.mem_map.mp hblock
    exact ⟨(hnames entry hentry).1, (hnames entry hentry).2, hkept slot _ hslot⟩
  have htwice : ofSaved config upgrader once.toSaved = .ok (once.compact, []) :=
    ofSaved_toSaved_of_stays hlayers hsizes hstays
  refine ⟨once.compact, htwice, rfl, ?_, ?_, block?_compact once, ?_⟩
  · intro slot hslot
    rw [compact, Palette.size_ofBlocks] at hslot
    simpa [Palette.isLive, compact] using hslot
  · simp [compact, toSaved, Function.comp_def]
  · rw [toSaved_compact]
    exact htwice

/-- Chests of which one gets a slot of its own, so that air and the slot that it leaves die. -/
theorem ofSaved_toSaved_chests :
    let s : SavedStructure := {
      name := "chests"
      size := ⟨1, 1, 3⟩
      palette := [⟨"minecraft:chest", [], some 1, none⟩, ⟨"minecraft:air", [], none, none⟩,
        ⟨"minecraft:dirt", [], none, none⟩]
      layers := [#[0, 1, 2], #[-1, 2, 1]]
      payloads := ⟨[(0, some [("id", .string "Chest"), ("x", .int 4)])], by decide⟩ }
    let upgrader : Upgrader := .rename 2 [("chest", "barrel")]
    ∃ once reports twice, ofSaved .standard upgrader s = .ok (once, reports) ∧
      once.palette.liveCount = 2 ∧ once.upgraded = 1 ∧
      (∀ entry ∈ once.palette.live,
        entry.2.name ≠ "" ∧ ¬ "minecraft:".toList <+: entry.2.name.toList) ∧
      ofSaved .standard upgrader once.toSaved = .ok (twice, []) ∧
      twice.upgraded = 0 ∧
      (∀ slot < twice.palette.size, twice.palette.isLive slot = true) ∧
      twice.layers.map Array.size = once.layers.map Array.size ∧
      (∀ number offset, twice.block? number offset = once.block? number offset) ∧
      ofSaved .standard upgrader twice.toSaved = .ok (twice, []) := by
  intro s upgrader
  have hok : ((ofSaved .standard upgrader s).toOption.any fun result => decide
      (result.1.palette.liveCount = 2 ∧ result.1.upgraded = 1 ∧
        ∀ entry ∈ result.1.palette.live,
          entry.2.name ≠ "" ∧ ¬ "minecraft:".toList <+: entry.2.name.toList)) = true := by
    decide +kernel
  cases h : ofSaved .standard upgrader s with
  | error e =>
    rw [h] at hok
    contradiction
  | ok result =>
    rw [h] at hok
    obtain ⟨hlive, hupgraded, hnames⟩ := of_decide_eq_true hok
    obtain ⟨twice, htwice⟩ := ofSaved_toSaved h hnames
    exact ⟨result.1, result.2, twice, rfl, hlive, hupgraded, hnames, htwice⟩

end Structure
end Hologram
