import Hologram.Proofs.Pack.Placement
import Mathlib.Algebra.BigOperators.Group.Finset.Basic
import Mathlib.Algebra.BigOperators.Intervals

/-! How many blocks validation looks for: as many as voxels of the primary layer refer to a block,
as a whole and at each height. -/
namespace Hologram

open Finset (range)

theorem countP_eq_sum {α : Type} (xs : List α) (p : α → Bool) :
    xs.countP p = ∑ i ∈ range xs.length, (xs[i]?.any p).toNat := by
  induction xs with
  | nil => rfl
  | cons a xs ih =>
    rw [List.countP_cons, List.length_cons, Finset.sum_range_succ', ih]
    cases ha : p a <;> simp [ha]

theorem sum_map_range (f : Nat → Nat) (n : Nat) :
    ((List.range n).map f).sum = ∑ i ∈ range n, f i := rfl

theorem sum_range_mul (m n : Nat) (f : Nat → Nat) :
    ∑ i ∈ range (m * n), f i = ∑ j ∈ range m, ∑ k ∈ range n, f (j * n + k) := by
  induction m with
  | zero => simp
  | succ m ih => rw [Nat.succ_mul, Finset.sum_range_add, ih, Finset.sum_range_succ]

namespace Size

def heightAt (s : Size) (offset : Nat) : Nat :=
  offset / s.depth % s.height

theorem heightAt_offset {s : Size} {x y z : Nat} (hy : y < s.height) (hz : z < s.depth) :
    s.heightAt (s.offset x y z) = y := by
  unfold heightAt offset
  rw [Nat.add_comm, Nat.add_mul_div_right _ _ (by omega), Nat.div_eq_of_lt hz, Nat.zero_add,
    Nat.add_comm, Nat.add_mul_mod_self_right, Nat.mod_eq_of_lt hy]

/-- Every offset below the product of the extents is that of one position. -/
theorem sum_offsets (s : Size) (f : Nat → Nat) : ∑ i ∈ range s.volume, f i =
    ∑ x ∈ range s.width, ∑ y ∈ range s.height, ∑ z ∈ range s.depth, f (s.offset x y z) := by
  rw [volume, sum_range_mul, sum_range_mul]
  rfl

end Size

namespace Layer

def liveCount (layer : Layer) (palette : Palette) : Nat :=
  layer.toList.countP palette.isLive

def liveCountAt (layer : Layer) (size : Size) (palette : Palette) (y : Nat) : Nat :=
  layer.toList.zipIdx.countP fun (reference, offset) =>
    palette.isLive reference && size.heightAt offset == y

theorem liveCount_le (layer : Layer) (palette : Palette) : layer.liveCount palette ≤ layer.size :=
  Array.length_toList ▸ List.countP_le_length

theorem liveCountAt_le (layer : Layer) (size : Size) (palette : Palette) (y : Nat) :
    layer.liveCountAt size palette y ≤ layer.size := by
  rw [← Array.length_toList, ← List.length_zipIdx]
  exact List.countP_le_length

def isLiveAt (layer : Layer) (palette : Palette) (offset : Nat) : Bool :=
  layer[offset]?.any palette.isLive

variable {layer : Layer} {size : Size}

theorem liveCount_eq_sum (palette : Palette) (h : layer.size = size.volume) :
    layer.liveCount palette = ∑ x ∈ range size.width, ∑ y ∈ range size.height,
      ∑ z ∈ range size.depth, (layer.isLiveAt palette (size.offset x y z)).toNat := by
  rw [liveCount, countP_eq_sum, Array.length_toList, h, size.sum_offsets]
  simp only [Array.getElem?_toList]
  rfl

theorem liveCountAt_eq_sum (palette : Palette) (h : layer.size = size.volume) {y : Nat}
    (hy : y < size.height) :
    layer.liveCountAt size palette y = ∑ x ∈ range size.width, ∑ z ∈ range size.depth,
      (layer.isLiveAt palette (size.offset x y z)).toNat := by
  have hentry (x y' z : Nat) (hy' : y' < size.height) (hz : z < size.depth) :
      (layer.toList.zipIdx[size.offset x y' z]?.any fun (reference, offset) =>
        palette.isLive reference && size.heightAt offset == y).toNat =
      if y' = y then (layer.isLiveAt palette (size.offset x y' z)).toNat else 0 := by
    rw [List.getElem?_zipIdx, Array.getElem?_toList, Option.any_map, isLiveAt, Nat.zero_add]
    simp only [Size.heightAt_offset hy' hz]
    by_cases hyy : y' = y
    · simp [hyy]
    · simp [hyy, beq_eq_false_iff_ne.mpr hyy]
  rw [liveCountAt, countP_eq_sum, List.length_zipIdx, Array.length_toList, h, size.sum_offsets]
  refine Finset.sum_congr rfl fun x _ => ?_
  rw [Finset.sum_eq_single_of_mem y (Finset.mem_range.mpr hy)]
  · refine Finset.sum_congr rfl fun z hz => ?_
    rw [hentry x y z hy (Finset.mem_range.mp hz), if_pos rfl]
  · intro y' hy' hne
    refine Finset.sum_eq_zero fun z hz => ?_
    rw [hentry x y' z (Finset.mem_range.mp hy') (Finset.mem_range.mp hz), if_neg hne]

end Layer

namespace Validation

variable {size : Size} {palette : Palette} {first : Layer} {others : List Layer}

/-- At a position validation looks for a block when the primary layer refers to one. -/
theorem length_primary_column (x y z : Nat) :
    (primary (Placement.column size palette (first :: others) x y z)).length =
      (first.isLiveAt palette (size.offset x y z)).toNat := by
  have hothers : primary ((others.zipIdx 1).filterMap (Placement.at? size palette x y z)) = [] := by
    refine List.filter_eq_nil_iff.mpr fun p hp => ?_
    obtain ⟨⟨layer, number⟩, hmem, hat⟩ := List.mem_filterMap.mp hp
    obtain ⟨reference, block, -, -, rfl⟩ := Placement.at?_eq_some_iff.mp hat
    have hnumber := (List.mem_zipIdx hmem).1
    simp only [beq_iff_eq]
    omega
  have hcolumn : Placement.column size palette (first :: others) x y z =
      (Placement.at? size palette x y z (first, 0)).toList ++
        (others.zipIdx 1).filterMap (Placement.at? size palette x y z) := by
    rw [Placement.column, List.zipIdx_cons, List.filterMap_cons]
    cases Placement.at? size palette x y z (first, 0) <;> rfl
  rw [hcolumn, primary, List.filter_append, ← primary, ← primary, hothers, List.append_nil]
  unfold Placement.at? Layer.isLiveAt Palette.isLive
  cases hreference : first[size.offset x y z]? with
  | none => rfl
  | some reference =>
    cases hblock : palette.get? reference with
    | none => simp [primary, hblock]
    | some block => simp [primary, hblock]

theorem length_primary_row {y : Nat} (hy : y < size.height) :
    (primary (Placement.row size palette (first :: others) y)).length =
      ∑ x ∈ range size.width, ∑ z ∈ range size.depth,
        (first.isLiveAt palette (size.offset x y z)).toNat := by
  rw [Placement.row_eq hy]
  unfold primary
  rw [List.filter_flatMap, List.length_flatMap, sum_map_range]
  refine Finset.sum_congr rfl fun x _ => ?_
  rw [List.filter_flatMap, List.length_flatMap, sum_map_range]
  refine Finset.sum_congr rfl fun z _ => ?_
  exact length_primary_column x y z

variable (h : Array.size first = size.volume)

include h

/-- At each height validation looks for as many blocks as voxels of the primary layer refer to. -/
theorem counts_ofRows {y : Nat} (hy : y < size.height) :
    (ofRows (Placement.rows size palette (first :: others))).counts[y]? =
      some (first.liveCountAt size palette y) := by
  rw [Layer.liveCountAt_eq_sum palette h hy, ← @length_primary_row size palette first others y hy]
  simp [ofRows, Placement.rows, hy]

theorem length_blocks_ofRows :
    (ofRows (Placement.rows size palette (first :: others))).blocks.length =
      first.liveCount palette := by
  rw [Layer.liveCount_eq_sum palette h]
  have hrows : (ofRows (Placement.rows size palette (first :: others))).blocks.length =
      ∑ y ∈ range size.height,
        (primary (Placement.row size palette (first :: others) y)).length := by
    rw [ofRows, Placement.rows, List.flatMap_map, List.length_flatMap, sum_map_range]
    simp only [List.length_map]
  rw [hrows, Finset.sum_comm]
  refine Finset.sum_congr rfl fun y hy => ?_
  exact length_primary_row (Finset.mem_range.mp hy)

end Validation

end Hologram
