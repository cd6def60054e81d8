import Hologram.Proofs.Structure.FirstSeen
import Hologram.Proofs.Structure.Payloads
import Hologram.Proofs.Structure.VoxelMeaning

/-! Slots for voxels with data of their own. Blocks that are equal together with their data share a
slot, slots are added in the order in which the blocks come, and a slot that was saved dies when
voxels move away from it and none is left behind. -/
namespace Hologram

namespace Folding

variable {config : Config} {start : Palette} {layer : Layer}

/-- The block with data of its own that a payload has for its voxel. -/
def variant? (config : Config) (palette : Palette) (layer : Layer)
    (entry : Nat × Option (Dictionary Json)) : Option Block := do
  let reference ← layer[entry.1]?
  let base ← palette.get? reference
  let data ← moving? config entry.2
  return base.withEntityData data

theorem add_of_variant?_eq_none {f : Folding} {entry : Nat × Option (Dictionary Json)}
    (h : variant? config f.palette f.primary entry = none) : f.add config entry = f := by
  rw [add_eq]
  unfold variant? at h
  split
  case h_1 reference data hr hdata =>
    cases hbase : f.palette.get? reference with
    | none => rfl
    | some base => simp [hr, hdata, hbase] at h
  case h_2 => rfl

/-- A voxel for which there is a variant moves away from some slot. -/
theorem add_of_variant?_eq_some {f : Folding} {entry : Nat × Option (Dictionary Json)}
    {variant : Block} (h : variant? config f.palette f.primary entry = some variant) :
    ∃ base : Nat, f.primary[entry.1]? = some (base : Int) ∧
      f.add config entry = f.move entry.1 base variant := by
  obtain ⟨reference, hr, h⟩ := Option.bind_eq_some_iff.mp h
  obtain ⟨block, hblock, h⟩ := Option.bind_eq_some_iff.mp h
  obtain ⟨data, hdata, h⟩ := Option.bind_eq_some_iff.mp h
  cases h
  have hnat : ¬ reference < 0 := fun hneg => by
    rw [Palette.get?_of_neg hneg] at hblock
    contradiction
  obtain ⟨base, rfl⟩ := Int.eq_ofNat_of_zero_le (Int.not_lt.mp hnat)
  exact ⟨base, hr, add_of_moving hr hblock hdata⟩

/-- The slot of a variant is where its first equal is. -/
theorem gathers_slotOf {f : Folding} {seen : List Block}
    (h : start.Gathers f.palette f.variants seen) (variant : Block) :
    start.Gathers (f.slotOf variant).2.palette (f.slotOf variant).2.variants (seen ++ [variant]) ∧
      ∃ place, FirstSeen.place? (seen ++ [variant]) variant = some place ∧
        (f.slotOf variant).1 = start.size + place := by
  unfold slotOf
  cases hslot : f.variants.get? variant.key with
  | some slot => exact h.found hslot
  | none => exact h.missed hslot

/-- What folding comes to after some payloads, in terms of the palette and the layer that it starts
from. -/
structure Folded (config : Config) (start : Palette) (layer : Layer)
    (done : List (Nat × Option (Dictionary Json))) (f : Folding) : Prop where
  gathers : start.Gathers f.palette f.variants (done.filterMap (variant? config start layer))
  moved : ∀ entry ∈ done, ∀ variant, variant? config start layer entry = some variant →
    ∃ place : Nat,
      FirstSeen.place? (done.filterMap (variant? config start layer)) variant = some place ∧
      f.primary[entry.1]? = some ((start.size + place : Nat) : Int)
  stays : ∀ offset, (∀ entry ∈ done, entry.1 = offset → variant? config start layer entry = none) →
    f.primary[offset]? = layer[offset]?
  mem_bases : ∀ slot, slot ∈ f.bases ↔ ∃ entry ∈ done,
    (variant? config start layer entry).isSome ∧ layer[entry.1]? = some (slot : Int)

theorem folded_start : Folded config start layer [] { palette := start, primary := layer } where
  gathers := .nil start
  moved _ hentry := by contradiction
  stays _ _ := rfl
  mem_bases _ := by simp

namespace Folded

variable {done : List (Nat × Option (Dictionary Json))} {f : Folding}

/-- The variant of a voxel that has not moved is that of the start. -/
theorem variant?_eq (h : Folded config start layer done f)
    (hin : ∀ reference ∈ layer, reference < (start.size : Int))
    {entry : Nat × Option (Dictionary Json)} (hnew : ∀ other ∈ done, other.1 ≠ entry.1) :
    variant? config f.palette f.primary entry = variant? config start layer entry := by
  unfold variant?
  rw [h.stays entry.1 fun other hother heq => absurd heq (hnew other hother)]
  cases hr : layer[entry.1]? with
  | none => rfl
  | some reference =>
    simp only [Option.bind_eq_bind, Option.bind_some]
    rw [h.gathers.extends_start.get? (hin reference (Array.mem_of_getElem? hr))]

theorem add (hin : ∀ reference ∈ layer, reference < (start.size : Int))
    (h : Folded config start layer done f) {entry : Nat × Option (Dictionary Json)}
    (hnew : ∀ other ∈ done, other.1 ≠ entry.1) :
    Folded config start layer (done ++ [entry]) (f.add config entry) := by
  have hsame := h.variant?_eq hin hnew
  cases hvariant : variant? config start layer entry with
  | none =>
    have hdone : (done ++ [entry]).filterMap (variant? config start layer) =
        done.filterMap (variant? config start layer) := by
      simp [List.filterMap_append, hvariant]
    rw [add_of_variant?_eq_none (hsame.trans hvariant)]
    refine ⟨hdone ▸ h.gathers, fun other hother variant hv => ?_, fun offset ho => ?_, fun slot => ?_⟩
    · rcases List.mem_append.mp hother with hother | hother
      · exact hdone ▸ h.moved other hother variant hv
      · rw [List.mem_singleton.mp hother, hvariant] at hv
        contradiction
    · exact h.stays offset fun other hother => ho other (List.mem_append_left _ hother)
    · rw [h.mem_bases]
      simp [or_and_right, exists_or, hvariant]
  | some variant =>
    have hdone : (done ++ [entry]).filterMap (variant? config start layer) =
        done.filterMap (variant? config start layer) ++ [variant] := by
      simp [List.filterMap_append, hvariant]
    obtain ⟨base, hbase, hadd⟩ := add_of_variant?_eq_some (hsame.trans hvariant)
    have hlayer : layer[entry.1]? = some (base : Int) := by
      rw [← hbase, h.stays entry.1 fun other hother heq => absurd heq (hnew other hother)]
    obtain ⟨hgathers, place, hplace, hslot⟩ := gathers_slotOf h.gathers variant
    have hprimary (offset : Nat) : (f.move entry.1 base variant).primary[offset]? =
        if offset = entry.1 then some ((start.size + place : Nat) : Int)
        else f.primary[offset]? := by
      obtain ⟨hoffset, -⟩ := Array.getElem?_eq_some_iff.mp hbase
      simp only [move, primary_slotOf, hslot, Array.getElem?_setIfInBounds]
      by_cases ho : offset = entry.1
      · simp [ho, hoffset]
      · simp [ho, Ne.symm ho]
    rw [hadd]
    refine ⟨hdone ▸ hgathers, fun other hother v hv => ?_, fun offset ho => ?_, fun slot => ?_⟩
    · rw [hdone, hprimary]
      rcases List.mem_append.mp hother with hother | hother
      · obtain ⟨old, hold, hr⟩ := h.moved other hother v hv
        rw [if_neg (hnew other hother)]
        exact ⟨old, FirstSeen.place?_append hold _, hr⟩
      · rw [List.mem_singleton.mp hother] at hv ⊢
        rw [hvariant, Option.some_inj] at hv
        exact ⟨place, hv ▸ hplace, if_pos rfl⟩
    · have hother : offset ≠ entry.1 := fun heq => by
        have hnone := ho entry (by simp) heq.symm
        rw [hvariant] at hnone
        contradiction
      rw [hprimary, if_neg hother]
      exact h.stays offset fun other hother => ho other (List.mem_append_left _ hother)
    · have hlast : slot = base ↔ layer[entry.1]? = some (slot : Int) := by
        rw [hlayer, Option.some_inj, Int.natCast_inj, eq_comm]
      simp only [move, bases_slotOf, List.mem_cons, List.mem_append, List.not_mem_nil, or_false,
        or_and_right, exists_or, exists_eq_left, hvariant, Option.isSome_some, true_and]
      rw [h.mem_bases, hlast, or_comm]

/-- Behind the slots of the start there are blocks that voxels moved to. -/
theorem moved_to (h : Folded config start layer done f) {slot : Nat}
    (hstart : start.size ≤ slot) (hslot : slot < f.palette.size) :
    (∃ block, f.palette.block? slot = some block) ∧ (slot : Int) ∈ f.primary := by
  obtain ⟨place, rfl⟩ := Nat.exists_eq_add_of_le hstart
  rw [h.gathers.size_eq, Nat.add_lt_add_iff_left] at hslot
  have hblock := List.getElem?_eq_getElem hslot
  obtain ⟨entry, hentry, hvariant⟩ := List.mem_filterMap.mp
    (FirstSeen.mem_of_mem_eraseDups (List.mem_of_getElem? hblock))
  obtain ⟨other, hother, hr⟩ := h.moved entry hentry _ hvariant
  rw [FirstSeen.place?_of_getElem? hblock, Option.some_inj] at hother
  exact ⟨⟨_, h.gathers.block?_add place ▸ hblock⟩, Array.mem_of_getElem? (hother ▸ hr)⟩

end Folded

end Folding

namespace SavedStructure

/-- The block that a voxel of the primary layer has with data of its own. -/
def variant? (config : Config) (upgrader : Upgrader) (s : SavedStructure) (offset : Nat) :
    Option Block := do
  let primary ← s.layers.head?
  let reference ← primary[offset]?
  let base ← s.referred? config upgrader reference
  let data ← s.ownData? config offset
  return base.withEntityData data

/-- The blocks with data of their own, in the order of their voxels. -/
def variants (config : Config) (upgrader : Upgrader) (s : SavedStructure) : List Block :=
  s.payloads.entries.filterMap fun entry => s.variant? config upgrader entry.1

end SavedStructure

namespace Structure

open FirstSeen

variable {config : Config} {upgrader : Upgrader}

/-- A voxel with data of its own has an entry that gives them. -/
theorem exists_entry_of_variant? {s : SavedStructure} {offset : Nat} {variant : Block}
    (h : s.variant? config upgrader offset = some variant) :
    ∃ data?, (offset, data?) ∈ s.payloads.entries := by
  obtain ⟨primary, -, h⟩ := Option.bind_eq_some_iff.mp h
  obtain ⟨reference, -, h⟩ := Option.bind_eq_some_iff.mp h
  obtain ⟨base, -, h⟩ := Option.bind_eq_some_iff.mp h
  obtain ⟨own, hown, -⟩ := Option.bind_eq_some_iff.mp h
  obtain ⟨data, hdata, -⟩ := Option.bind_eq_some_iff.mp hown
  obtain ⟨data?, hdata?, -⟩ := Option.bind_eq_some_iff.mp hdata
  obtain ⟨before, after, hentries, -⟩ := List.lookup_eq_some_iff.mp hdata?
  exact ⟨data?, hentries ▸ List.mem_append_right _ List.mem_cons_self⟩

section Variants

variable {s : SavedStructure} {palette : Palette} {primary : Layer} {f : Folding}
  (hclean : cleanPalette config upgrader s.palette = .ok palette)
  (hprimary : s.layers.head? = some primary)
  (hd : ∀ entry ∈ s.payloads.entries, ∀ data, entry.2 = some data → data.Distinct)
  (hfolded : Folding.Folded config palette primary s.payloads.entries f)

include hclean hprimary hd

/-- The block that folding gives a slot to is the one that the voxel has, up to the order of its
data. -/
theorem variant?_beq {entry : Nat × Option (Dictionary Json)}
    (hentry : entry ∈ s.payloads.entries) :
    (Folding.variant? config palette primary entry ==
      s.variant? config upgrader entry.1) = true := by
  unfold Folding.variant? SavedStructure.variant?
  simp only [hprimary, Option.bind_eq_bind, Option.bind_some]
  cases primary[entry.1]? with
  | none => rfl
  | some reference =>
    simp only [Option.bind_some, get?_cleanPalette hclean]
    cases s.referred? config upgrader reference with
    | none => rfl
    | some base =>
      simp only [Option.bind_some]
      rcases ownData?_cases config (Payloads.lookup_of_mem hentry) (hd entry hentry) with
        ⟨hmoving, hown⟩ | ⟨moved, own, hmoving, hown, hdistinct, hperm⟩
      · rw [hmoving, hown]
        rfl
      · rw [hmoving, hown]
        exact Block.beq_iff_key_eq.mpr (Block.key_withEntityData_of_perm base hdistinct hperm)

/-- As many blocks with data of their own are different, in whatever order their data come. -/
theorem length_eraseDups_variants :
    (s.payloads.entries.filterMap (Folding.variant? config palette primary)).eraseDups.length =
      (s.variants config upgrader).eraseDups.length := by
  have hkeys : ∀ a b : Block, (a.key == b.key) = (a == b) := fun a b => by
    rw [Bool.eq_iff_iff, Block.beq_iff_key_eq, beq_iff_eq]
  have hsame : (s.payloads.entries.filterMap (Folding.variant? config palette primary)).map
      Block.key = (s.variants config upgrader).map Block.key := by
    rw [SavedStructure.variants, List.map_filterMap, List.map_filterMap]
    exact List.filterMap_congr fun entry hentry =>
      Block.map_key_eq_of_beq (variant?_beq hclean hprimary hd hentry)
  rw [← List.length_map Block.key, ← eraseDups_map hkeys, hsame, eraseDups_map hkeys,
    List.length_map]

include hfolded

/-- A voxel with data of its own moves to the place of its block among those that are added. -/
theorem moved_of_variant? {offset : Nat} {variant : Block}
    (h : s.variant? config upgrader offset = some variant) :
    ∃ place : Nat, place? (s.payloads.entries.filterMap (Folding.variant? config palette primary))
        variant = some place ∧
      f.primary[offset]? = some ((palette.size + place : Nat) : Int) := by
  obtain ⟨data?, hentry⟩ := exists_entry_of_variant? h
  have hbeq := variant?_beq hclean hprimary hd hentry
  rw [h] at hbeq
  cases hvariant : Folding.variant? config palette primary (offset, data?) with
  | none =>
    rw [hvariant] at hbeq
    contradiction
  | some moved =>
    rw [hvariant, Option.some_beq_some] at hbeq
    rw [← place?_congr hbeq]
    exact hfolded.moved _ hentry moved hvariant

/-- Voxels with data of their own share a slot exactly when their blocks are equal. -/
theorem exists_slot_iff_beq {a b : Nat} {v w : Block}
    (ha : s.variant? config upgrader a = some v) (hb : s.variant? config upgrader b = some w) :
    (∃ slot : Nat, f.primary[a]? = some (slot : Int) ∧ f.primary[b]? = some (slot : Int)) ↔
      (v == w) = true := by
  obtain ⟨m, hm, hma⟩ := moved_of_variant? hclean hprimary hd hfolded ha
  obtain ⟨k, hk, hkb⟩ := moved_of_variant? hclean hprimary hd hfolded hb
  rw [← place?_inj hm hk, hma, hkb]
  constructor
  · rintro ⟨slot, hslot, hsame⟩
    rw [Option.some_inj] at hslot hsame
    omega
  · rintro rfl
    exact ⟨_, rfl, rfl⟩

/-- Voxels moved away from the slots that those with data of their own referred to. -/
theorem mem_bases_iff (slot : Nat) :
    slot ∈ f.bases ↔ ∃ offset : Nat, primary[offset]? = some (slot : Int) ∧
      (s.variant? config upgrader offset).isSome := by
  have hsome {entry : Nat × Option (Dictionary Json)} (hentry : entry ∈ s.payloads.entries) :
      (Folding.variant? config palette primary entry).isSome ↔
        (s.variant? config upgrader entry.1).isSome := by
    rw [Option.isSome_iff_ne_none, Option.isSome_iff_ne_none]
    exact not_congr (eq_none_iff_of_beq (variant?_beq hclean hprimary hd hentry))
  rw [hfolded.mem_bases]
  constructor
  · rintro ⟨entry, hentry, hvariant, hr⟩
    exact ⟨entry.1, hr, (hsome hentry).mp hvariant⟩
  · rintro ⟨offset, hr, hvariant⟩
    obtain ⟨variant, hv⟩ := Option.isSome_iff_exists.mp hvariant
    obtain ⟨data?, hentry⟩ := exists_entry_of_variant? hv
    exact ⟨(offset, data?), hentry, (hsome hentry).mpr hvariant, hr⟩

end Variants

theorem uses_eq_false_iff {layers : List Layer} {slot : Nat} :
    uses layers slot = false ↔ ∀ layer ∈ layers, (slot : Int) ∉ layer := by
  simp [uses]

/-- Cleaning shares and retires slots. Voxels with data of their own share a slot exactly when their
blocks are equal, every slot behind the saved ones is such a slot, and a saved slot keeps its block
unless voxels moved away from it and none refers to it any more. -/
theorem slots_of_ofSaved {s : SavedStructure} {n : Structure} {reports : List Report}
    (h : ofSaved config upgrader s = .ok (n, reports))
    (hin : ∀ layer ∈ s.layers, ∀ reference ∈ layer, reference < (s.palette.length : Int))
    (hd : ∀ entry ∈ s.payloads.entries, ∀ data, entry.2 = some data → data.Distinct) :
    ∃ old new : Layer, s.layers.head? = some old ∧ n.layers.head? = some new ∧
      (∀ a b v w, s.variant? config upgrader a = some v → s.variant? config upgrader b = some w →
        ((∃ slot : Nat, new[a]? = some (slot : Int) ∧ new[b]? = some (slot : Int)) ↔
          (v == w) = true)) ∧
      n.palette.size = s.palette.length + (s.variants config upgrader).eraseDups.length ∧
      (∀ slot, s.palette.length ≤ slot → slot < n.palette.size →
        n.palette.isLive slot = true ∧ ∃ offset : Nat, new[offset]? = some (slot : Int)) ∧
      (∀ slot < s.palette.length, n.palette.block? slot = none ∨
        n.palette.block? slot = s.referred? config upgrader slot) ∧
      ∀ slot saved current, s.palette[slot]? = some saved →
        upgrader.updateIfOutdated saved = .ok current →
        config.ignoresBlock (SavedBlock.plainName current.name) = false →
          (n.palette.block? slot = none ↔
            (∃ offset : Nat, old[offset]? = some (slot : Int) ∧
              (s.variant? config upgrader offset).isSome) ∧
            ∀ layer ∈ n.layers, (slot : Int) ∉ layer) := by
  obtain ⟨old, others, palette, folded, retired, hlayers, hclean, hfolded, hnew, hpalette,
    hretired⟩ := ofSaved_retires h
  have hsize := (cleanPalette_spec hclean).1
  have hold : s.layers.head? = some old := by rw [hlayers, List.head?_cons]
  have hsound : Folding.Folded config palette old s.payloads.entries folded := by
    have hprimary : ∀ reference ∈ old, reference < (palette.size : Int) :=
      hsize ▸ hin old (hlayers ▸ List.mem_cons_self)
    exact hfolded ▸ Folding.foldl_of_ascending (Folding.Folded.add hprimary)
      Folding.folded_start s.payloads.ascending
  have hmeaning (slot : Nat) (hslot : slot < s.palette.length) :
      folded.palette.block? slot = s.referred? config upgrader slot := by
    rw [hsound.gathers.extends_start.2 slot (hsize ▸ hslot), ← Palette.get?_natCast,
      get?_cleanPalette hclean]
  refine ⟨old, folded.primary, hold, by rw [hnew, List.head?_cons], ?_, ?_, ?_, ?_, ?_⟩
  · intro a b v w ha hb
    exact exists_slot_iff_beq hclean hold hd hsound ha hb
  · rw [hpalette, Palette.size_foldl_bury, hsound.gathers.size_eq, hsize,
      length_eraseDups_variants hclean hold hd]
  · -- a voxel moved to the slot and still refers to it, so it did not die
    intro slot hbehind hslot
    rw [hpalette, Palette.size_foldl_bury] at hslot
    obtain ⟨⟨block, hblock⟩, hused⟩ := hsound.moved_to (hsize ▸ hbehind) hslot
    have hkept : slot ∉ retired := fun hdead => by
      have hunused := uses_eq_false_iff.mp ((hretired slot).mp hdead).2.2
      exact hunused folded.primary (hnew ▸ List.mem_cons_self) hused
    refine ⟨?_, Array.mem_iff_getElem?.mp hused⟩
    rw [Palette.isLive, Palette.get?_natCast, hpalette, Palette.block?_foldl_bury _ _ hkept, hblock]
    rfl
  · intro slot hslot
    by_cases hdead : slot ∈ retired
    · exact .inl (hpalette ▸ Palette.block?_foldl_bury_of_mem _ hdead)
    · exact .inr (by rw [hpalette, Palette.block?_foldl_bury _ _ hdead, hmeaning slot hslot])
  · -- a slot whose name is not left out had a block, so only by dying can it have lost it
    intro slot saved current hsaved hcurrent hname
    obtain ⟨hslot, -⟩ := List.getElem?_eq_some_iff.mp hsaved
    have hlive : (folded.palette.block? slot).isSome := by
      rw [hmeaning slot hslot]
      simp [SavedStructure.referred?, hsaved, SavedBlock.current?, hcurrent, hname,
        Except.toOption]
    have hinside : slot < folded.palette.size :=
      Nat.lt_of_lt_of_le (hsize ▸ hslot) hsound.gathers.extends_start.1
    rw [hpalette, Palette.block?_foldl_bury_eq_none_iff hlive, hretired,
      mem_bases_iff hclean hold hd hsound, uses_eq_false_iff]
    exact ⟨And.right, fun hboth => ⟨hinside, hboth⟩⟩

/-- Two chests with the same data and one without, and a furnace that is the only one. -/
theorem slots_of_ofSaved_chests :
    let s : SavedStructure := {
      name := "chests"
      size := ⟨1, 1, 4⟩
      palette := [⟨"minecraft:chest", [], none, none⟩, ⟨"minecraft:furnace", [], none, none⟩,
        ⟨"minecraft:air", [], none, none⟩]
      layers := [#[0, 0, 1, 0], #[-1, -1, -1, 2]]
      payloads := ⟨[(0, some [("id", .string "Chest"), ("x", .int 4), ("Items", .array [])]),
        (1, some [("x", .int 5), ("Items", .array []), ("id", .string "Chest")]),
        (2, some [("id", .string "Furnace")])], by decide⟩ }
    ∃ n reports, ofSaved .standard .keep s = .ok (n, reports) ∧
      ∃ old new : Layer, s.layers.head? = some old ∧ n.layers.head? = some new ∧
        (∀ a b v w, s.variant? .standard .keep a = some v → s.variant? .standard .keep b = some w →
          ((∃ slot : Nat, new[a]? = some (slot : Int) ∧ new[b]? = some (slot : Int)) ↔
            (v == w) = true)) ∧
        n.palette.size = s.palette.length + (s.variants .standard .keep).eraseDups.length ∧
        (∀ slot, s.palette.length ≤ slot → slot < n.palette.size →
          n.palette.isLive slot = true ∧ ∃ offset : Nat, new[offset]? = some (slot : Int)) ∧
        (∀ slot < s.palette.length, n.palette.block? slot = none ∨
          n.palette.block? slot = s.referred? .standard .keep slot) ∧
        ∀ slot saved current, s.palette[slot]? = some saved →
          Upgrader.updateIfOutdated .keep saved = .ok current →
          Config.standard.ignoresBlock (SavedBlock.plainName current.name) = false →
            (n.palette.block? slot = none ↔
              (∃ offset : Nat, old[offset]? = some (slot : Int) ∧
                (s.variant? .standard .keep offset).isSome) ∧
              ∀ layer ∈ n.layers, (slot : Int) ∉ layer) := by
  intro s
  have hok : (ofSaved .standard .keep s).toOption.isSome = true := by decide +kernel
  cases h : ofSaved .standard .keep s with
  | error e =>
    rw [h] at hok
    contradiction
  | ok result =>
    refine ⟨result.1, result.2, rfl, slots_of_ofSaved h ?_ ?_⟩
    · decide
    · simp [s, Dictionary.Distinct]

end Structure

end Hologram
