import Hologram.Pack.Animation
import Hologram.Proofs.Number.Digits
import Mathlib.Tactic.SplitIfs

/-! The blocks of a structure by their positions. Every position of a layer has one block at most,
and the name of its bone tells the position and the layer. -/
namespace Hologram

def voxelBone (x y z layer : Nat) : String :=
  "p_" ++ "_".intercalate ([x, y, z, layer].map toString)

/-- The members of a list are told apart by their numbers. -/
theorem pairwise_zipIdx {α : Type} (items : List α) :
    items.zipIdx.Pairwise fun a b => a.2 ≠ b.2 := by
  rw [← List.pairwise_map (f := Prod.snd) (R := (· ≠ ·)), List.zipIdx_map_snd]
  exact List.nodup_range'

/-- As many numbers with lines between them are told by their text. -/
theorem intercalate_toString_inj {ms ns : List Nat} (hlength : ms.length = ns.length)
    (h : ("_".intercalate (ms.map toString)).toList = ("_".intercalate (ns.map toString)).toList) :
    ms = ns := by
  induction ms generalizing ns with
  | nil => exact (List.length_eq_zero_iff.mp hlength.symm).symm
  | cons m ms ih =>
    obtain ⟨n, ns, rfl⟩ := List.exists_cons_of_length_eq_add_one hlength.symm
    rw [List.length_cons, List.length_cons, Nat.add_right_cancel_iff] at hlength
    cases ms with
    | nil =>
      obtain rfl := List.length_eq_zero_iff.mp hlength.symm
      obtain ⟨rfl, -⟩ := Number.toString_nat_append_inj (m := m) (n := n)
        Number.endsDigits_nil Number.endsDigits_nil (by simpa using h)
      rfl
    | cons m' ms =>
      obtain ⟨n', ns, rfl⟩ := List.exists_cons_of_length_eq_add_one hlength.symm
      have hline : ∀ cs : List Char, "_".toList ++ cs = '_' :: cs := fun _ => rfl
      simp only [List.map_cons, String.intercalate_cons_cons, String.toList_append,
        List.append_assoc, hline] at h
      obtain ⟨rfl, hrest⟩ := Number.toString_nat_append_inj (Number.EndsDigits.cons (by decide) _)
        (Number.EndsDigits.cons (by decide) _) h
      rw [ih hlength (List.cons_inj_right _ |>.mp hrest)]

/-- The name of a bone tells its position and its layer. -/
theorem voxelBone_inj {x y z layer x' y' z' layer' : Nat}
    (h : voxelBone x y z layer = voxelBone x' y' z' layer') :
    x = x' ∧ y = y' ∧ z = z' ∧ layer = layer' := by
  have hlist := congrArg String.toList h
  rw [voxelBone, voxelBone, String.toList_append, String.toList_append] at hlist
  have hnumbers : [x, y, z, layer] = [x', y', z', layer'] :=
    intercalate_toString_inj rfl (List.append_cancel_left hlist)
  simpa using hnumbers

namespace Placement

variable {size : Size} {palette : Palette} {layers : List Layer}

theorem boneName_eq (p : Placement) : p.boneName = voxelBone p.x p.y p.z p.layer := rfl

def slotAt? (size : Size) (palette : Palette) (layers : List Layer) (x y z number : Nat) :
    Option Nat :=
  if x < size.width ∧ y < size.height ∧ z < size.depth then do
    let layer ← layers[number]?
    let reference ← layer[size.offset x y z]?
    if palette.isLive reference then some reference.toNat else none
  else none

/-- What there is at a position has that position, and the slot that its voxel refers to. -/
theorem at?_eq_some_iff {x y z number : Nat} {layer : Layer} {p : Placement} :
    at? size palette x y z (layer, number) = some p ↔ ∃ reference block,
      layer[size.offset x y z]? = some reference ∧ palette.get? reference = some block ∧
      p = ⟨x, y, z, number, reference.toNat, block⟩ := by
  simp only [at?, Option.bind_eq_bind, Option.bind_eq_some_iff, Option.pure_def,
    Option.some.injEq, exists_and_left, eq_comm (a := p)]

theorem mem_column {p : Placement} {x y z : Nat} :
    p ∈ column size palette layers x y z ↔ ∃ number layer,
      layers[number]? = some layer ∧ at? size palette x y z (layer, number) = some p := by
  simp only [column, List.mem_filterMap, Prod.exists, List.mk_mem_zipIdx_iff_getElem?]
  exact exists_comm

/-- The blocks at one height are what there is at the positions of that height. -/
theorem mem_row {p : Placement} {y : Nat} (hy : y < size.height) :
    p ∈ row size palette layers y ↔ ∃ x z number layer, x < size.width ∧ z < size.depth ∧
      layers[number]? = some layer ∧ at? size palette x y z (layer, number) = some p := by
  simp only [row_eq hy, List.mem_flatMap, List.mem_range, mem_column]
  grind

/-- The blocks of a structure are what there is at its positions. -/
theorem mem_flatten_rows {p : Placement} :
    p ∈ (rows size palette layers).flatten ↔ ∃ x y z number layer,
      (x < size.width ∧ y < size.height ∧ z < size.depth) ∧
        layers[number]? = some layer ∧ at? size palette x y z (layer, number) = some p := by
  constructor
  · intro h
    obtain ⟨_, hrow, hp⟩ := List.mem_flatten.mp h
    obtain ⟨y, hy, rfl⟩ := List.mem_map.mp hrow
    rw [List.mem_range] at hy
    obtain ⟨x, z, number, layer, hx, hz, hlayer, hat⟩ := (mem_row hy).mp hp
    exact ⟨x, y, z, number, layer, ⟨hx, hy, hz⟩, hlayer, hat⟩
  · rintro ⟨x, y, z, number, layer, ⟨hx, hy, hz⟩, hlayer, hat⟩
    refine List.mem_flatten.mpr ⟨_, List.mem_map.mpr ⟨y, List.mem_range.mpr hy, rfl⟩, ?_⟩
    exact (mem_row hy).mpr ⟨x, z, number, layer, hx, hz, hlayer, hat⟩

/-- A block of a structure is the one in its slot. -/
theorem block?_slot {p : Placement} (h : p ∈ (rows size palette layers).flatten) :
    palette.block? p.slot = some p.block := by
  obtain ⟨x, y, z, number, layer, -, -, hat⟩ := mem_flatten_rows.mp h
  obtain ⟨reference, block, -, hblock, rfl⟩ := at?_eq_some_iff.mp hat
  unfold Palette.get? at hblock
  split_ifs at hblock
  exact hblock

/-- A position has a slot when there is a block, which is in that slot. -/
theorem slotAt?_eq_some_iff {x y z number slot : Nat} :
    slotAt? size palette layers x y z number = some slot ↔
      (x < size.width ∧ y < size.height ∧ z < size.depth) ∧ ∃ layer p,
        layers[number]? = some layer ∧ at? size palette x y z (layer, number) = some p ∧
          p.slot = slot := by
  unfold slotAt?
  split_ifs with hinside
  · constructor
    · intro h
      obtain ⟨layer, hlayer, h⟩ := Option.bind_eq_some_iff.mp h
      obtain ⟨reference, hr, h⟩ := Option.bind_eq_some_iff.mp h
      split_ifs at h with hlive
      obtain ⟨block, hblock⟩ := Option.isSome_iff_exists.mp hlive
      exact ⟨hinside, layer, _, hlayer, at?_eq_some_iff.mpr ⟨reference, block, hr, hblock, rfl⟩,
        Option.some.inj h⟩
    · rintro ⟨-, layer, p, hlayer, hat, rfl⟩
      obtain ⟨reference, block, hr, hblock, rfl⟩ := at?_eq_some_iff.mp hat
      simp [hlayer, hr, Palette.isLive, hblock]
  · simp [hinside]

/-- Among the blocks of a structure, the one with the name of a position is the one there. -/
theorem find?_flatten_rows (x y z number : Nat) :
    ((rows size palette layers).flatten.find? fun p => p.boneName == voxelBone x y z number).map
        Placement.slot =
      slotAt? size palette layers x y z number := by
  symm
  cases hfind : (rows size palette layers).flatten.find? fun p =>
      p.boneName == voxelBone x y z number with
  | none =>
    rw [Option.map_none, Option.eq_none_iff_forall_ne_some]
    intro slot hslot
    obtain ⟨hinside, layer, p, hlayer, hat, -⟩ := slotAt?_eq_some_iff.mp hslot
    have hmem := mem_flatten_rows.mpr ⟨x, y, z, number, layer, hinside, hlayer, hat⟩
    obtain ⟨reference, block, -, -, rfl⟩ := at?_eq_some_iff.mp hat
    exact List.find?_eq_none.mp hfind _ hmem (beq_self_eq_true _)
  | some p =>
    obtain ⟨x', y', z', number', layer, hinside, hlayer, hat⟩ :=
      mem_flatten_rows.mp (List.mem_of_find?_eq_some hfind)
    have hname := List.find?_some hfind
    obtain ⟨reference, block, -, -, hp⟩ := at?_eq_some_iff.mp hat
    rw [hp, boneName_eq, beq_iff_eq] at hname
    obtain ⟨rfl, rfl, rfl, rfl⟩ := voxelBone_inj hname
    exact slotAt?_eq_some_iff.mpr ⟨hinside, layer, p, hlayer, hat, rfl⟩

end Placement
end Hologram
