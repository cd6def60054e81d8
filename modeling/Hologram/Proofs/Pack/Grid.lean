import Hologram.Proofs.Pack.BlockCounts
import Mathlib.Data.List.Forall2
import Mathlib.Data.List.Nodup

/-! The voxels of a structure that hold a block. Each of them is listed once, and their bones, the
motions of these and the blocks that validation looks for are listed in the same order. -/
namespace Hologram

/-- A list that has every item with a property, and each of them once. -/
def Enumerates {α : Type} (items : List α) (p : α → Prop) : Prop :=
  items.Nodup ∧ ∀ a, a ∈ items ↔ p a

theorem Enumerates.filter {α : Type} {items : List α} {p : α → Prop} (h : Enumerates items p)
    (keep : α → Bool) : Enumerates (items.filter keep) fun a => p a ∧ keep a = true :=
  ⟨h.1.filter keep, fun a => List.mem_filter.trans (and_congr_left fun _ => h.2 a)⟩

theorem Enumerates.congr {α : Type} {items : List α} {p q : α → Prop} (h : Enumerates items p)
    (hpq : ∀ a, p a ↔ q a) : Enumerates items q :=
  ⟨h.1, fun a => (h.2 a).trans (hpq a)⟩

/-- The digits of a number in a mixed radix are told by the number. -/
theorem mul_add_inj {n a b a' b' : Nat} (hb : b < n) (hb' : b' < n)
    (h : a * n + b = a' * n + b') : a = a' ∧ b = b' := by
  have hlow : b = b' := by
    rw [← Nat.mul_add_mod_of_lt (a := a) hb, h, Nat.mul_add_mod_of_lt hb']
  subst hlow
  exact ⟨Nat.eq_of_mul_eq_mul_right (by omega) (Nat.add_right_cancel h), rfl⟩

theorem exists_mul_add_eq {m n number : Nat} (h : number < m * n) :
    ∃ a < m, ∃ b < n, a * n + b = number := by
  have hn : 0 < n := Nat.pos_of_mul_pos_left (Nat.zero_lt_of_lt h)
  exact ⟨number / n, (Nat.div_lt_iff_lt_mul hn).mpr h, number % n, Nat.mod_lt _ hn,
    Nat.div_add_mod' number n⟩

namespace Size

/-- The offset of a voxel tells its position. -/
theorem offset_inj {s : Size} {x y z x' y' z' : Nat} (hy : y < s.height) (hz : z < s.depth)
    (hy' : y' < s.height) (hz' : z' < s.depth) (h : s.offset x y z = s.offset x' y' z') :
    x = x' ∧ y = y' ∧ z = z' := by
  obtain ⟨hxy, rfl⟩ := mul_add_inj hz hz' h
  obtain ⟨rfl, rfl⟩ := mul_add_inj hy hy' hxy
  exact ⟨rfl, rfl, rfl⟩

/-- Every offset below the product of the extents is that of some position. -/
theorem exists_offset_eq {s : Size} {offset : Nat} (h : offset < s.volume) :
    ∃ x y z, (x < s.width ∧ y < s.height ∧ z < s.depth) ∧ s.offset x y z = offset := by
  obtain ⟨column, hcolumn, z, hz, hoffset⟩ := exists_mul_add_eq h
  obtain ⟨x, hx, y, hy, rfl⟩ := exists_mul_add_eq hcolumn
  exact ⟨x, y, z, ⟨hx, hy, hz⟩, hoffset⟩

end Size

@[ext]
structure Voxel where
  x : Nat
  y : Nat
  z : Nat
  layer : Nat
  deriving DecidableEq, Repr

namespace Voxel

def slot? (size : Size) (palette : Palette) (layers : List Layer) (v : Voxel) : Option Nat :=
  Placement.slotAt? size palette layers v.x v.y v.z v.layer

def boneName (v : Voxel) : String :=
  voxelBone v.x v.y v.z v.layer

/-- The name of the place where particles mark a voxel. -/
def locator (v : Voxel) : String :=
  "b_" ++ "_".intercalate ([v.x, v.y, v.z].map toString)

theorem boneName_injective : Function.Injective boneName := by
  rintro ⟨x, y, z, layer⟩ ⟨x', y', z', layer'⟩ h
  obtain ⟨rfl, rfl, rfl, rfl⟩ := voxelBone_inj h
  rfl

end Voxel

/-- Lists whose members tell which of them they are in repeat nothing when none of them does. -/
theorem nodup_flatMap_range {α : Type} {n : Nat} {f : Nat → List α} (key : α → Nat)
    (hkey : ∀ i < n, ∀ a ∈ f i, key a = i) (h : ∀ i < n, (f i).Nodup) :
    ((List.range n).flatMap f).Nodup := by
  refine List.nodup_flatMap.mpr ⟨fun i hi => h i (List.mem_range.mp hi), ?_⟩
  refine List.nodup_range.imp_of_mem fun {i j} hi hj hne a hai haj => hne ?_
  rw [← hkey i (List.mem_range.mp hi) a hai, hkey j (List.mem_range.mp hj) a haj]

namespace Placement

variable {size : Size} {palette : Palette} {layers : List Layer}

def voxel (p : Placement) : Voxel :=
  ⟨p.x, p.y, p.z, p.layer⟩

/-- The voxels with a block, from the lowest height. -/
def voxels (size : Size) (palette : Palette) (layers : List Layer) : List Voxel :=
  (rows size palette layers).flatten.map voxel

theorem voxel_of_at? {x y z number : Nat} {layer : Layer} {p : Placement}
    (h : at? size palette x y z (layer, number) = some p) : p.voxel = ⟨x, y, z, number⟩ := by
  obtain ⟨reference, block, -, -, rfl⟩ := at?_eq_some_iff.mp h
  rfl

theorem voxel_of_mem_column {x y z : Nat} {p : Placement}
    (h : p ∈ column size palette layers x y z) : p.x = x ∧ p.y = y ∧ p.z = z := by
  obtain ⟨number, layer, -, hat⟩ := mem_column.mp h
  obtain ⟨rfl, rfl, rfl, -⟩ := Voxel.mk.inj (voxel_of_at? hat)
  exact ⟨rfl, rfl, rfl⟩

theorem height_of_mem_row {y : Nat} (hy : y < size.height) {p : Placement}
    (h : p ∈ row size palette layers y) : p.y = y := by
  obtain ⟨x, z, number, layer, -, -, -, hat⟩ := (mem_row hy).mp h
  exact congrArg Voxel.y (voxel_of_at? hat)

/-- A block of a structure is in the slot of its voxel. -/
theorem slot?_voxel {p : Placement} (h : p ∈ (rows size palette layers).flatten) :
    p.voxel.slot? size palette layers = some p.slot := by
  obtain ⟨x, y, z, number, layer, hinside, hlayer, hat⟩ := mem_flatten_rows.mp h
  rw [voxel_of_at? hat]
  exact slotAt?_eq_some_iff.mpr ⟨hinside, layer, p, hlayer, hat, rfl⟩

/-- The voxels with a block are those that have a slot. -/
theorem mem_voxels {v : Voxel} :
    v ∈ voxels size palette layers ↔ (v.slot? size palette layers).isSome = true := by
  unfold voxels
  rw [List.mem_map, Option.isSome_iff_exists]
  constructor
  · rintro ⟨p, hp, rfl⟩
    exact ⟨p.slot, slot?_voxel hp⟩
  · rintro ⟨slot, hslot⟩
    obtain ⟨hinside, layer, p, hlayer, hat, -⟩ := slotAt?_eq_some_iff.mp hslot
    exact ⟨p, mem_flatten_rows.mpr ⟨v.x, v.y, v.z, v.layer, layer, hinside, hlayer, hat⟩,
      voxel_of_at? hat⟩

/-- At one position the layers are told apart by their numbers. -/
theorem nodup_column (x y z : Nat) :
    ((column size palette layers x y z).map voxel).Nodup := by
  rw [List.Nodup, List.pairwise_map, column, List.pairwise_filterMap]
  refine (pairwise_zipIdx layers).imp fun {a b} hne p hp q hq heq => hne ?_
  rw [voxel_of_at? hp, voxel_of_at? hq] at heq
  exact congrArg Voxel.layer heq

/-- No voxel is listed twice. -/
theorem nodup_voxels : (voxels size palette layers).Nodup := by
  -- rows are told apart by the height, and then by the width and the depth
  unfold voxels rows
  rw [List.map_flatten, List.map_map, ← List.flatMap_def]
  refine nodup_flatMap_range Voxel.y (fun y hy v hv => ?_) fun y hy => ?_
  · obtain ⟨p, hp, rfl⟩ := List.mem_map.mp hv
    exact height_of_mem_row hy hp
  · rw [Function.comp_apply, row_eq hy, List.map_flatMap]
    refine nodup_flatMap_range Voxel.x (fun x hx v hv => ?_) fun x hx => ?_
    · obtain ⟨p, hp, rfl⟩ := List.mem_map.mp hv
      obtain ⟨z, -, hp⟩ := List.mem_flatMap.mp hp
      exact (voxel_of_mem_column hp).1
    · rw [List.map_flatMap]
      refine nodup_flatMap_range Voxel.z (fun z hz v hv => ?_) fun z hz => nodup_column x y z
      obtain ⟨p, hp, rfl⟩ := List.mem_map.mp hv
      exact (voxel_of_mem_column hp).2.2

theorem enumerates_voxels : Enumerates (voxels size palette layers) fun v =>
    (v.slot? size palette layers).isSome = true :=
  ⟨nodup_voxels, fun _ => mem_voxels⟩

/-- In a layer with an entry for each voxel, every entry with a block is that of one voxel. -/
theorem existsUnique_voxel (h : ∀ layer ∈ layers, Array.size layer = size.volume)
    {number offset : Nat} {layer : Layer} {reference : Int} (hlayer : layers[number]? = some layer)
    (hr : layer[offset]? = some reference) (hlive : palette.isLive reference = true) :
    ∃ v ∈ voxels size palette layers, (v.layer = number ∧ size.offset v.x v.y v.z = offset ∧
        v.slot? size palette layers = some reference.toNat) ∧
      ∀ other ∈ voxels size palette layers, other.layer = number →
        size.offset other.x other.y other.z = offset → other = v := by
  obtain ⟨hoffset, -⟩ := Array.getElem?_eq_some_iff.mp hr
  rw [h layer (List.mem_of_getElem? hlayer)] at hoffset
  obtain ⟨x, y, z, hinside, rfl⟩ := Size.exists_offset_eq hoffset
  have hslot : Voxel.slot? size palette layers ⟨x, y, z, number⟩ = some reference.toNat := by
    simp [Voxel.slot?, slotAt?, hinside, hlayer, hr, hlive]
  refine ⟨⟨x, y, z, number⟩, mem_voxels.mpr (Option.isSome_iff_exists.mpr ⟨_, hslot⟩),
    ⟨rfl, rfl, hslot⟩, fun other hother hnumber hoffset => ?_⟩
  obtain ⟨slot, hother⟩ := Option.isSome_iff_exists.mp (mem_voxels.mp hother)
  obtain ⟨⟨-, hy, hz⟩, -⟩ := slotAt?_eq_some_iff.mp hother
  obtain ⟨hx, hy, hz⟩ := Size.offset_inj hy hz hinside.2.1 hinside.2.2 hoffset
  exact Voxel.ext hx hy hz hnumber

theorem zipIdx_rows : (rows size palette layers).zipIdx =
    (List.range size.height).map fun y => (row size palette layers y, y) := by
  refine List.ext_getElem (by simp [rows]) fun i _ _ => ?_
  simp [rows]

theorem bones_ofRows (index : Nat) (miniScale : Float) :
    (Animation.ofRows index miniScale (rows size palette layers)).bones =
      (rows size palette layers).flatten.map fun p =>
        (p.boneName, ⟨p.origin, (Animation.scale p.y miniScale).text⟩) := by
  unfold Animation.ofRows
  rw [zipIdx_rows, List.flatMap_map, rows, List.map_flatten, List.map_map, ← List.flatMap_def]
  refine List.flatMap_congr fun y hy => List.map_congr_left fun p hp => ?_
  rw [height_of_mem_row (List.mem_range.mp hy) hp]

theorem blocks_ofRows (rows : List (List Placement)) :
    (Validation.ofRows rows).blocks =
      (Validation.primary rows.flatten).map Validation.blockOf := by
  unfold Validation.ofRows Validation.primary
  rw [List.filter_flatten, List.map_flatten, List.map_map, ← List.flatMap_def]
  rfl

theorem filter_voxels : (voxels size palette layers).filter (·.layer == 0) =
    (Validation.primary (rows size palette layers).flatten).map voxel := by
  unfold voxels
  rw [List.filter_map]
  rfl

/-- Of the voxels of the primary layer, those at one height are listed in one row. -/
theorem countP_voxels {y : Nat} (hy : y < size.height) :
    (voxels size palette layers).countP (fun v => v.layer == 0 && v.y == y) =
      (Validation.primary (row size palette layers y)).length := by
  have hrow : ∀ i < size.height, (row size palette layers i).countP
      ((fun v : Voxel => v.layer == 0 && v.y == y) ∘ voxel) =
        if i = y then (Validation.primary (row size palette layers y)).length else 0 := by
    intro i hi
    split_ifs with hiy
    · subst hiy
      rw [Validation.primary, ← List.countP_eq_length_filter]
      refine List.countP_congr fun p hp => ?_
      simp [voxel, height_of_mem_row hi hp]
    · refine List.countP_eq_zero.mpr fun p hp => ?_
      simp [voxel, height_of_mem_row hi hp, hiy]
  rw [voxels, List.countP_map, List.countP_flatten, rows, List.map_map, sum_map_range]
  refine (Finset.sum_congr rfl fun i hi => hrow i (Finset.mem_range.mp hi)).trans ?_
  rw [Finset.sum_ite_eq', if_pos (Finset.mem_range.mpr hy)]

theorem counts_eq : (Validation.ofRows (rows size palette layers)).counts =
    (List.range size.height).map fun y =>
      (voxels size palette layers).countP fun v => v.layer == 0 && v.y == y := by
  unfold Validation.ofRows
  rw [rows, List.map_map]
  refine List.map_congr_left fun y hy => ?_
  rw [countP_voxels (List.mem_range.mp hy)]
  rfl

/-- The bone of a placement is that of its voxel, and repeats the template bone of its slot. -/
theorem forall₂_bones : List.Forall₂ (fun (bone : Bone) v => bone.name = v.boneName ∧
      ∃ slot, v.slot? size palette layers = some slot ∧ bone.parent = templateBone slot)
    ((rows size palette layers).flatten.map bone) (voxels size palette layers) := by
  rw [voxels, List.forall₂_map_left_iff, List.forall₂_map_right_iff, List.forall₂_same]
  exact fun p hp => ⟨rfl, p.slot, slot?_voxel hp, rfl⟩

theorem forall₂_motions (index : Nat) (miniScale : Float) :
    List.Forall₂ (fun (entry : String × BoneMotion) v => entry.1 = v.boneName ∧
        entry.2.origin = [-16.0 * Float.ofNat v.x, 16.0 * Float.ofNat v.y,
          16.0 * Float.ofNat v.z] ∧
        entry.2.scale = (Animation.scale v.y miniScale).text)
      (Animation.ofRows index miniScale (rows size palette layers)).bones
      (voxels size palette layers) := by
  rw [bones_ofRows, voxels, List.forall₂_map_left_iff, List.forall₂_map_right_iff,
    List.forall₂_same]
  exact fun p _ => ⟨rfl, rfl, rfl⟩

/-- Validation looks for the blocks of the voxels of the primary layer. -/
theorem forall₂_blocks : List.Forall₂ (fun (b : ValidatedBlock) v => b.locator = v.locator ∧
      b.position = Position.ofVoxel v.x v.y v.z ∧
      ∃ slot block, v.slot? size palette layers = some slot ∧
        palette.block? slot = some block ∧ b.block = block.name)
    (Validation.ofRows (rows size palette layers)).blocks
    ((voxels size palette layers).filter (·.layer == 0)) := by
  rw [blocks_ofRows, filter_voxels, List.forall₂_map_left_iff, List.forall₂_map_right_iff,
    List.forall₂_same]
  intro p hp
  obtain ⟨hp, -⟩ := List.mem_filter.mp hp
  exact ⟨rfl, rfl, p.slot, p.block, slot?_voxel hp, block?_slot hp, rfl⟩

/-- The voxels of a structure with a block are each listed once, and in step with them a bone with
the template of the slot as its parent, and its motion at the place of the voxel. When the layers
have an entry for each voxel, every entry with a block is that of one voxel in the list. Validation
looks for the voxels of the primary layer in step as well, and counts them at each height. -/
theorem voxels_of_rows (index : Nat) (miniScale : Float) (size : Size) (palette : Palette)
    (layers : List Layer) :
    let rows := rows size palette layers
    let bones := rows.flatten.map bone
    let motions := (Animation.ofRows index miniScale rows).bones
    let validation := Validation.ofRows rows
    ∃ voxels : List Voxel,
      Enumerates voxels (fun v => (v.slot? size palette layers).isSome = true) ∧
      (bones.map Bone.name).Nodup ∧
      List.Forall₂ (fun (bone : Bone) v => bone.name = v.boneName ∧
        ∃ slot, v.slot? size palette layers = some slot ∧ bone.parent = templateBone slot)
        bones voxels ∧
      List.Forall₂ (fun (entry : String × BoneMotion) v => entry.1 = v.boneName ∧
        entry.2.origin = [-16.0 * Float.ofNat v.x, 16.0 * Float.ofNat v.y,
          16.0 * Float.ofNat v.z] ∧
        entry.2.scale = (Animation.scale v.y miniScale).text) motions voxels ∧
      ((∀ layer ∈ layers, Array.size layer = size.volume) →
        ∀ number layer offset reference, layers[number]? = some layer →
          layer[offset]? = some reference → palette.isLive reference = true →
          ∃ v ∈ voxels, (v.layer = number ∧ size.offset v.x v.y v.z = offset ∧
              v.slot? size palette layers = some reference.toNat) ∧
            ∀ other ∈ voxels, other.layer = number →
              size.offset other.x other.y other.z = offset → other = v) ∧
      List.Forall₂ (fun (b : ValidatedBlock) v => b.locator = v.locator ∧
        b.position = Position.ofVoxel v.x v.y v.z ∧
        ∃ slot block, v.slot? size palette layers = some slot ∧
          palette.block? slot = some block ∧ b.block = block.name)
        validation.blocks (voxels.filter (·.layer == 0)) ∧
      validation.counts = (List.range size.height).map fun y =>
        voxels.countP fun v => v.layer == 0 && v.y == y := by
  intro rows bones motions validation
  have hnames : bones.map Bone.name = (voxels size palette layers).map Voxel.boneName := by
    rw [voxels, List.map_map, List.map_map]
    rfl
  refine ⟨voxels size palette layers, enumerates_voxels, ?_, forall₂_bones,
    forall₂_motions index miniScale, fun h number layer offset reference hlayer hr hlive =>
      existsUnique_voxel h hlayer hr hlive, forall₂_blocks, counts_eq⟩
  rw [hnames]
  exact nodup_voxels.map Voxel.boneName_injective

/-- A dead slot, an empty entry and a second layer: three voxels, of which two are in the primary
layer at different heights. -/
example :
    let palette : Palette := ⟨#[some ⟨"stone", [], none⟩, some ⟨"water", [], none⟩, none]⟩
    voxels ⟨1, 2, 2⟩ palette [#[0, -1, 2, 0], #[1, -1, -1, -1]] =
      [⟨0, 0, 0, 0⟩, ⟨0, 0, 0, 1⟩, ⟨0, 1, 1, 0⟩] := by
  decide +kernel

end Placement
end Hologram
