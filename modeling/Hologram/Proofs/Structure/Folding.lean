import Hologram.Structure.Normal
import Mathlib.Tactic.ByContra
import Mathlib.Tactic.SplitIfs

/-! Voxels that get slots for their data. Slots are only added, a voxel moves only for a payload of
its own, and every variant that is remembered has its slot. -/
namespace Hologram

namespace Palette

/-- A palette that begins with all the slots of another. -/
def Extends (p q : Palette) : Prop :=
  p.size ≤ q.size ∧ ∀ slot < p.size, q.block? slot = p.block? slot

theorem Extends.refl (p : Palette) : p.Extends p :=
  ⟨Nat.le_refl _, fun _ _ => rfl⟩

theorem Extends.trans {p q r : Palette} (hpq : p.Extends q) (hqr : q.Extends r) : p.Extends r :=
  ⟨Nat.le_trans hpq.1 hqr.1, fun slot hslot =>
    (hqr.2 slot (Nat.lt_of_lt_of_le hslot hpq.1)).trans (hpq.2 slot hslot)⟩

theorem extends_push (p : Palette) (slot : Option Block) : p.Extends (p.push slot) := by
  refine ⟨by simp, fun number hnumber => ?_⟩
  rw [block?_push, if_neg (by omega)]

/-- Only slots that are there have blocks. -/
theorem lt_size_of_block? {p : Palette} {slot : Nat} {b : Block} (h : p.block? slot = some b) :
    slot < p.size := by
  unfold block? at h
  by_contra hslot
  rw [Array.getElem?_eq_none (by simpa [size] using hslot)] at h
  contradiction

theorem Extends.block? {p q : Palette} (h : p.Extends q) {slot : Nat} {b : Block}
    (hb : p.block? slot = some b) : q.block? slot = some b :=
  (h.2 slot (lt_size_of_block? hb)).trans hb

theorem Extends.get? {p q : Palette} (h : p.Extends q) {reference : Int}
    (hr : reference < p.size) : q.get? reference = p.get? reference := by
  unfold Palette.get?
  split_ifs with hneg
  · rfl
  · exact h.2 reference.toNat (by omega)

/-- Every key that is remembered has a slot with a block of that key. -/
def Remembers (p : Palette) (slots : Dictionary Nat) : Prop :=
  ∀ key slot, slots.get? key = some slot → ∃ block, p.block? slot = some block ∧ block.key = key

/-- A block at the end is remembered by its key. -/
theorem Remembers.push {p : Palette} {slots : Dictionary Nat} (h : p.Remembers slots)
    (block : Block) : (p.push (some block)).Remembers ((block.key, p.size) :: slots) := by
  intro key slot hslot
  rw [Dictionary.get?_cons] at hslot
  split_ifs at hslot with hkey
  · cases hslot
    exact ⟨block, by simp, hkey⟩
  · obtain ⟨old, hold, hk⟩ := h key slot hslot
    exact ⟨old, (extends_push _ _).block? hold, hk⟩

/-- Taking the blocks out of several slots leaves the other slots alone. -/
theorem block?_foldl_bury (slots : List Nat) (p : Palette) {number : Nat}
    (h : number ∉ slots) : (slots.foldl bury p).block? number = p.block? number := by
  induction slots generalizing p with
  | nil => rfl
  | cons slot rest ih =>
    rw [List.mem_cons, not_or] at h
    rw [List.foldl_cons, ih (p.bury slot) h.2, block?_bury, if_neg h.1]

theorem block?_foldl_bury_of_mem {slots : List Nat} (p : Palette) {number : Nat}
    (h : number ∈ slots) : (slots.foldl bury p).block? number = none := by
  induction slots generalizing p with
  | nil => contradiction
  | cons slot rest ih =>
    rw [List.foldl_cons]
    by_cases hrest : number ∈ rest
    · exact ih (p.bury slot) hrest
    · rw [block?_foldl_bury rest _ hrest, block?_bury,
        if_pos ((List.mem_cons.mp h).resolve_right hrest)]

/-- A slot with a block loses it when it is among those that are taken out. -/
theorem block?_foldl_bury_eq_none_iff {slots : List Nat} {p : Palette} {number : Nat}
    (h : (p.block? number).isSome) :
    (slots.foldl bury p).block? number = none ↔ number ∈ slots := by
  constructor
  · intro hnone
    by_contra hkept
    rw [block?_foldl_bury slots p hkept] at hnone
    rw [hnone] at h
    contradiction
  · exact block?_foldl_bury_of_mem p

/-- Taking out blocks brings no others. -/
theorem block?_of_foldl_bury (slots : List Nat) {p : Palette} {number : Nat} {block : Block}
    (h : (slots.foldl bury p).block? number = some block) : p.block? number = some block := by
  by_cases hmem : number ∈ slots
  · rw [block?_foldl_bury_of_mem p hmem] at h
    contradiction
  · rwa [block?_foldl_bury slots p hmem] at h

@[simp] theorem size_foldl_bury (slots : List Nat) (p : Palette) :
    (slots.foldl bury p).size = p.size := by
  induction slots generalizing p with
  | nil => rfl
  | cons slot rest ih => rw [List.foldl_cons, ih, size_bury]

end Palette

namespace Folding

variable {config : Config}

/-- Every variant that is remembered has its slot. -/
def Remembers (f : Folding) : Prop :=
  ∀ key slot, f.variants.get? key = some slot →
    ∃ block, f.palette.block? slot = some block ∧ block.key = key

theorem Remembers.slotOf {f : Folding} (h : f.Remembers) (variant : Block) :
    (f.slotOf variant).2.Remembers := by
  unfold Folding.slotOf
  cases hv : f.variants.get? variant.key with
  | some slot => exact h
  | none => exact Palette.Remembers.push h variant

theorem extends_slotOf (f : Folding) (variant : Block) :
    f.palette.Extends (f.slotOf variant).2.palette := by
  unfold slotOf
  cases f.variants.get? variant.key with
  | some slot => exact .refl _
  | none => exact Palette.extends_push _ _

@[simp] theorem primary_slotOf (f : Folding) (variant : Block) :
    (f.slotOf variant).2.primary = f.primary := by
  unfold slotOf
  cases f.variants.get? variant.key <;> rfl

@[simp] theorem bases_slotOf (f : Folding) (variant : Block) :
    (f.slotOf variant).2.bases = f.bases := by
  unfold slotOf
  cases f.variants.get? variant.key <;> rfl

/-- The slot of a variant has a block of the same key. -/
theorem block?_slotOf {f : Folding} (h : f.Remembers) (variant : Block) :
    ∃ block, (f.slotOf variant).2.palette.block? (f.slotOf variant).1 = some block ∧
      block.key = variant.key := by
  unfold slotOf
  cases hv : f.variants.get? variant.key with
  | some slot => exact h variant.key slot hv
  | none => exact ⟨variant, by simp [Palette.append], rfl⟩

/-- The data that move a voxel to a slot of its own. -/
def moving? (config : Config) (data? : Option (Dictionary Json)) : Option (Dictionary Json) :=
  (data?.filter fun data => !isIgnored config data).map essential

/-- One payload either changes nothing or moves its voxel. -/
theorem add_eq (f : Folding) (entry : Nat × Option (Dictionary Json)) :
    f.add config entry =
      match f.primary[entry.1]?, moving? config entry.2 with
      | some reference, some data => match f.palette.get? reference with
        | some base => f.move entry.1 reference.toNat (base.withEntityData data)
        | none => f
      | _, _ => f := by
  obtain ⟨offset, data?⟩ := entry
  unfold add moving?
  dsimp only
  cases f.primary[offset]? with
  | none => rfl
  | some reference =>
    cases data? with
    | none => cases f.palette.get? reference <;> simp
    | some data =>
      cases hbase : f.palette.get? reference <;> cases hi : isIgnored config data <;>
        simp [Option.filter, hbase, hi]

theorem add_of_moving {f : Folding} {offset : Nat} {reference : Int} {base : Block}
    {data? : Option (Dictionary Json)} {data : Dictionary Json}
    (hr : f.primary[offset]? = some reference) (hbase : f.palette.get? reference = some base)
    (hdata : moving? config data? = some data) :
    f.add config (offset, data?) =
      f.move offset reference.toNat (base.withEntityData data) := by
  rw [add_eq, hr, hdata]
  dsimp only
  rw [hbase]

variable (config) in
/-- One payload changes nothing, or it moves its voxel away from a slot that has a block. -/
theorem add_cases (f : Folding) (entry : Nat × Option (Dictionary Json)) :
    f.add config entry = f ∨ ∃ (base : Nat) (block : Block) (data : Dictionary Json),
      f.primary[entry.1]? = some (base : Int) ∧ f.palette.block? base = some block ∧
        f.add config entry = f.move entry.1 base (block.withEntityData data) := by
  rw [add_eq]
  split
  case h_1 reference data hr _ =>
    split
    case h_1 block hblock =>
      unfold Palette.get? at hblock
      split_ifs at hblock with hneg
      obtain ⟨base, rfl⟩ := Int.eq_ofNat_of_zero_le (Int.not_lt.mp hneg)
      exact .inr ⟨base, block, data, hr, hblock, rfl⟩
    case h_2 => exact .inl rfl
  case h_2 => exact .inl rfl

variable (config) in
theorem size_primary_add (f : Folding) (entry : Nat × Option (Dictionary Json)) :
    (f.add config entry).primary.size = f.primary.size := by
  rcases add_cases config f entry with hsame | ⟨base, block, data, -, -, hmove⟩
  · rw [hsame]
  · simp [hmove, move]

variable (config) in
theorem size_primary_foldl (f : Folding) (entries : List (Nat × Option (Dictionary Json))) :
    (entries.foldl (add config) f).primary.size = f.primary.size := by
  induction entries generalizing f with
  | nil => rfl
  | cons entry rest ih => exact (ih (f.add config entry)).trans (size_primary_add config f entry)

/-- What holds of a folding after some payloads holds after all of them when it carries over to one
more, whose voxel none of those before it has. -/
theorem foldl_of_ascending {Holds : List (Nat × Option (Dictionary Json)) → Folding → Prop}
    (hadd : ∀ {done f}, Holds done f → ∀ {entry}, (∀ other ∈ done, other.1 ≠ entry.1) →
      Holds (done ++ [entry]) (f.add config entry))
    {done entries : List (Nat × Option (Dictionary Json))} {f : Folding} (h : Holds done f)
    (hascending : (done ++ entries).Pairwise fun a b => a.1 < b.1) :
    Holds (done ++ entries) (entries.foldl (add config) f) := by
  induction entries generalizing done f with
  | nil => simpa using h
  | cons entry rest ih =>
    have hnew : ∀ other ∈ done, other.1 ≠ entry.1 := fun other hother =>
      Nat.ne_of_lt ((List.pairwise_append.mp hascending).2.2 other hother entry List.mem_cons_self)
    rw [← List.singleton_append, ← List.append_assoc] at hascending ⊢
    exact ih (hadd h hnew) hascending

end Folding
end Hologram
