import Hologram.Proofs.Structure.VoxelMeaning

/-! References behind the saved palette. Nothing clears them, so a slot that is added for the data
of some voxel is what they come to stand for. -/
namespace Hologram

namespace Palette

/-- A reference behind every slot stands for nothing. -/
theorem get?_of_size_le {p : Palette} {reference : Int} (h : (p.size : Int) ≤ reference) :
    p.get? reference = none := by
  refine Option.eq_none_iff_forall_ne_some.mpr fun block hblock => ?_
  unfold get? at hblock
  split_ifs at hblock with hneg
  have hslot := lt_size_of_block? hblock
  omega

end Palette

namespace Folding

variable {config : Config} {start : Palette}

/-- What folding makes of the palette that it starts from: the slots stay, and every slot behind
them has a block with data of its own. -/
structure Grown (start : Palette) (f : Folding) : Prop where
  remembers : f.Remembers
  extends_start : start.Extends f.palette
  behind : ∀ key slot, f.variants.get? key = some slot → start.size ≤ slot
  filled : ∀ slot < f.palette.size, start.size ≤ slot →
    ∃ block, f.palette.block? slot = some block ∧ block.entityData.isSome

theorem grown_start (primary : Layer) : Grown start { palette := start, primary } where
  remembers _ _ hslot := by contradiction
  extends_start := .refl start
  behind _ _ hslot := by contradiction
  filled slot hslot hstart := absurd hslot (Nat.not_lt.mpr hstart)

/-- A slot for a variant with data lies behind the slots of the start. -/
theorem Grown.slotOf {f : Folding} (h : f.Grown start) {variant : Block}
    (hdata : variant.entityData.isSome) :
    Grown start (f.slotOf variant).2 ∧ start.size ≤ (f.slotOf variant).1 := by
  unfold Folding.slotOf
  cases hv : f.variants.get? variant.key with
  | some slot => exact ⟨h, h.behind _ _ hv⟩
  | none =>
    have hsize : start.size ≤ f.palette.size := h.extends_start.1
    refine ⟨⟨Palette.Remembers.push h.remembers variant,
      h.extends_start.trans (Palette.extends_push _ _),
      fun key slot hslot => ?_, fun slot hslot hstart => ?_⟩, hsize⟩
    · dsimp only [Palette.append] at hslot
      rw [Dictionary.get?_cons] at hslot
      split_ifs at hslot with hkey
      · cases hslot
        exact hsize
      · exact h.behind key slot hslot
    · dsimp only [Palette.append] at hslot ⊢
      rw [Palette.block?_push]
      split_ifs with hlast
      · exact ⟨variant, rfl, hdata⟩
      · exact h.filled slot (by rw [Palette.size_push] at hslot; omega) hstart

theorem Grown.move {f : Folding} (h : f.Grown start) (offset base : Nat) {variant : Block}
    (hdata : variant.entityData.isSome) : (f.move offset base variant).Grown start := by
  obtain ⟨hgrown, -⟩ := h.slotOf hdata
  exact ⟨hgrown.remembers, hgrown.extends_start, hgrown.behind, hgrown.filled⟩

variable (config) in
theorem Grown.add {f : Folding} (h : f.Grown start) (entry : Nat × Option (Dictionary Json)) :
    (f.add config entry).Grown start := by
  rw [add_eq]
  split
  · split
    · exact h.move _ _ rfl
    · exact h
  · exact h

variable (config) in
theorem Grown.foldl {f : Folding} (h : f.Grown start)
    (entries : List (Nat × Option (Dictionary Json))) :
    (entries.foldl (Folding.add config) f).Grown start := by
  induction entries generalizing f with
  | nil => exact h
  | cons entry rest ih => exact ih (h.add config entry)

/-- A reference behind the start stands for a block exactly when there is a slot for it. -/
theorem Grown.get?_eq_none_iff {f : Folding} (h : f.Grown start) {reference : Int}
    (hstart : (start.size : Int) ≤ reference) :
    f.palette.get? reference = none ↔ (f.palette.size : Int) ≤ reference := by
  refine ⟨fun hnone => ?_, Palette.get?_of_size_le⟩
  by_contra hlt
  obtain ⟨block, hblock, -⟩ := h.filled reference.toNat (by omega) (by omega)
  rw [Palette.get?, if_neg (by omega), hblock] at hnone
  contradiction

theorem Grown.isSome_entityData {f : Folding} (h : f.Grown start) {reference : Int} {block : Block}
    (hstart : (start.size : Int) ≤ reference) (hget : f.palette.get? reference = some block) :
    block.entityData.isSome := by
  unfold Palette.get? at hget
  split_ifs at hget with hneg
  obtain ⟨own, hown, hdata⟩ :=
    h.filled reference.toNat (Palette.lt_size_of_block? hget) (by omega)
  rw [hown] at hget
  cases hget
  exact hdata

theorem size_slotOf_le (f : Folding) (variant : Block) :
    (f.slotOf variant).2.palette.size ≤ f.palette.size + 1 := by
  unfold slotOf
  cases f.variants.get? variant.key with
  | some slot => exact Nat.le_succ _
  | none => exact (Palette.size_push _ _).le

variable (config) in
/-- Folding adds at most one slot for each payload that moves a voxel. -/
theorem size_foldl_le (f : Folding) (entries : List (Nat × Option (Dictionary Json))) :
    (entries.foldl (add config) f).palette.size ≤
      f.palette.size + entries.countP fun entry => (moving? config entry.2).isSome := by
  induction entries generalizing f with
  | nil => exact Nat.le_refl _
  | cons entry rest ih =>
    have hadd : (f.add config entry).palette.size ≤
        f.palette.size + if (moving? config entry.2).isSome then 1 else 0 := by
      rw [add_eq]
      split
      case h_1 reference data _ hmoving =>
        rw [hmoving]
        split
        · exact size_slotOf_le f _
        · exact Nat.le_succ _
      case h_2 => exact Nat.le_add_right _ _
    rw [List.foldl_cons, List.countP_cons]
    have hrest := ih (f.add config entry)
    omega

/-- What becomes of a voxel that refers behind the start: it still does so, and it moves only after
there is a slot for its reference. -/
def Strays (start : Palette) (offset : Nat) (reference : Int) (f : Folding) : Prop :=
  ∃ now, f.primary[offset]? = some now ∧ (now = reference ∨
    reference < f.palette.size ∧ (start.size : Int) ≤ now ∧ now < f.palette.size)

variable (config) in
theorem Strays.add {f : Folding} {offset : Nat} {reference : Int} (hgrown : f.Grown start)
    (h : f.Strays start offset reference) (entry : Nat × Option (Dictionary Json)) :
    (f.add config entry).Strays start offset reference := by
  rw [add_eq]
  split
  case h_2 => exact h
  case h_1 old data hold _ =>
    split
    case h_2 => exact h
    case h_1 base hbase =>
      obtain ⟨now, hnow, hcases⟩ := h
      have hvariant : (base.withEntityData data).entityData.isSome := rfl
      have hsize := (extends_slotOf f (base.withEntityData data)).1
      by_cases hoffset : entry.1 = offset
      · -- the voxel itself moves, so what it refers to had a slot
        rw [hoffset, hnow, Option.some_inj] at hold
        subst hold
        obtain ⟨block, hblock, -⟩ := block?_slotOf hgrown.remembers (base.withEntityData data)
        have hslot := Palette.lt_size_of_block? hblock
        have hbehind := (hgrown.slotOf hvariant).2
        have hlt : now < f.palette.size := by
          by_contra hle
          rw [Palette.get?_of_size_le (by omega)] at hbase
          contradiction
        refine ⟨(f.slotOf (base.withEntityData data)).1, ?_, .inr ⟨?_, ?_, ?_⟩⟩
        · simp [Folding.move, hoffset, (Array.getElem?_eq_some_iff.mp hnow).1]
        · dsimp only [Folding.move]
          omega
        · omega
        · dsimp only [Folding.move]
          omega
      · refine ⟨now, by simp [Folding.move, hoffset, hnow], hcases.imp id fun hmoved => ?_⟩
        dsimp only [Folding.move]
        omega

variable (config) in
theorem Strays.foldl {f : Folding} {offset : Nat} {reference : Int} (hgrown : f.Grown start)
    (h : f.Strays start offset reference)
    (entries : List (Nat × Option (Dictionary Json))) :
    (entries.foldl (Folding.add config) f).Strays start offset reference := by
  induction entries generalizing f with
  | nil => exact h
  | cons entry rest ih => exact ih (hgrown.add config entry) (h.add config hgrown entry)

end Folding

namespace Structure

variable {config : Config} {upgrader : Upgrader}

/-- A voxel that refers behind the saved palette stands for nothing only as long as no slot with its
number is added. There is at most one for each payload that is not left out, and what the voxel
stands for otherwise is a block with data, its own or those of another voxel. -/
theorem block?_of_stray {s : SavedStructure} {n : Structure} {reports : List Report}
    {number offset : Nat} {layer : Layer} {reference : Int}
    (h : ofSaved config upgrader s = .ok (n, reports))
    (hlayer : s.layers[number]? = some layer) (hr : layer[offset]? = some reference)
    (hstray : (s.palette.length : Int) ≤ reference) :
    (n.block? number offset = none ↔ (n.palette.size : Int) ≤ reference) ∧
      (∀ block, n.block? number offset = some block → block.entityData.isSome) ∧
      n.palette.size ≤ s.palette.length +
        s.payloads.entries.countP fun entry => (Folding.moving? config entry.2).isSome := by
  obtain ⟨primary, others, palette, folded, retired, hlayers, hclean, hfolded, hnew, hpalette,
    hretired⟩ := ofSaved_cases h
  obtain ⟨hsize, -⟩ := cleanPalette_spec hclean
  rw [← hsize] at hstray ⊢
  have hgrown : folded.Grown palette :=
    hfolded ▸ (Folding.grown_start primary).foldl config s.payloads.entries
  have hsizes : n.palette.size = folded.palette.size := by
    rw [hpalette, Palette.size_foldl_bury]
  have hcount := Folding.size_foldl_le config { palette, primary } s.payloads.entries
  rw [hfolded] at hcount
  -- Whatever the layer, the voxel now refers behind the saved slots, to what it referred to before
  -- or past it.
  have hnow : ∃ now, n.block? number offset = folded.palette.get? now ∧
      (palette.size : Int) ≤ now ∧
      ((folded.palette.size : Int) ≤ now ↔ (folded.palette.size : Int) ≤ reference) := by
    cases number with
    | zero =>
      rw [hlayers, List.getElem?_cons_zero, Option.some_inj] at hlayer
      subst hlayer
      obtain ⟨now, hget, hcases⟩ :=
        hfolded ▸ Folding.Strays.foldl config (Folding.grown_start primary)
          ⟨reference, hr, .inl rfl⟩ s.payloads.entries
      refine ⟨now, ?_, by omega, by omega⟩
      have hfirst : folded.primary ∈ n.layers := hnew ▸ List.mem_cons_self
      rw [← get?_of_mem hretired hfirst (Array.mem_of_getElem? hget), ← hpalette]
      simp [block?, hnew, hget]
    | succ number =>
      rw [hlayers, List.getElem?_cons_succ] at hlayer
      have hother : layer ∈ n.layers :=
        hnew ▸ List.mem_cons_of_mem _ (List.mem_of_getElem? hlayer)
      refine ⟨reference, ?_, hstray, Iff.rfl⟩
      rw [← get?_of_mem hretired hother (Array.mem_of_getElem? hr), ← hpalette]
      simp [block?, hnew, hlayer, hr]
  obtain ⟨now, hblock, hbehind, hiff⟩ := hnow
  rw [hblock, hsizes, hgrown.get?_eq_none_iff hbehind]
  exact ⟨hiff, fun block hget => hgrown.isSome_entityData hbehind hget, hcount⟩

/-- A chest with data, and a voxel after it that refers behind the only entry of the palette. -/
def strayBesideChest : SavedStructure where
  name := "stray"
  size := ⟨1, 1, 2⟩
  palette := [⟨"minecraft:chest", [], none, none⟩]
  layers := [#[0, 1]]
  payloads := ⟨[(0, some [("id", .string "Chest")])], by decide⟩

/-- The stray voxel takes the slot of the chest beside it. -/
theorem block?_strayBesideChest :
    ∃ n reports, ofSaved .standard .keep strayBesideChest = .ok (n, reports) ∧
      ((strayBesideChest.palette.length : Int) ≤ 1) ∧
      (n.block? 0 1 = none ↔ (n.palette.size : Int) ≤ 1) ∧
      (∀ block, n.block? 0 1 = some block → block.entityData.isSome) ∧
      n.palette.size ≤ strayBesideChest.palette.length +
        strayBesideChest.payloads.entries.countP fun entry =>
          (Folding.moving? .standard entry.2).isSome := by
  have hok : (ofSaved .standard .keep strayBesideChest).toOption.isSome = true := by
    decide +kernel
  cases h : ofSaved .standard .keep strayBesideChest with
  | error e =>
    rw [h] at hok
    contradiction
  | ok result =>
    have hlayer : strayBesideChest.layers[0]? = some #[0, 1] := rfl
    exact ⟨result.1, result.2, rfl, by decide, block?_of_stray h hlayer rfl (by decide)⟩

/-- So a voxel that refers to no entry of the saved palette can come to stand for a block. -/
theorem stray_not_always_empty :
    ¬ ∀ (config : Config) (upgrader : Upgrader) (s : SavedStructure) (n : Structure)
      (reports : List Report) (number offset : Nat) (layer : Layer) (reference : Int),
      ofSaved config upgrader s = .ok (n, reports) → s.layers[number]? = some layer →
        layer[offset]? = some reference → (s.palette.length : Int) ≤ reference →
        n.block? number offset = none := by
  intro hempty
  have hok : ((ofSaved .standard .keep strayBesideChest).toOption.any fun result =>
      (result.1.block? 0 1).isSome) = true := by
    decide +kernel
  cases h : ofSaved .standard .keep strayBesideChest with
  | error e =>
    rw [h] at hok
    contradiction
  | ok result =>
    have hnone := hempty _ _ _ result.1 result.2 0 1 #[0, 1] 1 h rfl rfl (by decide)
    rw [h] at hok
    simp [Except.toOption, hnone] at hok

end Structure
end Hologram
