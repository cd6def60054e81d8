import Hologram.Proofs.Structure.Block
import Hologram.Proofs.Structure.Folding
import Mathlib.Data.List.Induction

/-! Palettes to which blocks are added once. A dictionary from keys to slots tells whether an equal
block is there, so what is added to a palette is what is left of a list of blocks when later equals
are taken out. -/
namespace Hologram

namespace FirstSeen

variable {α : Type} [BEq α]

/-- The place of an item among those that stay. -/
def place? (items : List α) (a : α) : Option Nat :=
  items.eraseDups.findIdx? (· == a)

theorem getElem?_of_place? {items : List α} {a : α} {place : Nat}
    (h : place? items a = some place) :
    ∃ equal, items.eraseDups[place]? = some equal ∧ (equal == a) = true := by
  obtain ⟨hplace, hequal, -⟩ := List.findIdx?_eq_some_iff_getElem.mp h
  exact ⟨_, List.getElem?_eq_getElem hplace, hequal⟩

variable [EquivBEq α]

/-- One more item stays unless an equal one is there. -/
theorem eraseDups_concat (items : List α) (a : α) :
    (items ++ [a]).eraseDups =
      if items.contains a then items.eraseDups else items.eraseDups ++ [a] := by
  induction h : items.length using Nat.strong_induction_on generalizing items with
  | _ length ih =>
    cases items with
    | nil => rfl
    | cons first rest =>
      subst h
      have hless : (rest.filter fun b => !b == first).length < (first :: rest).length :=
        Nat.lt_succ_of_le (List.length_filter_le _ _)
      rw [List.cons_append, List.eraseDups_cons, List.eraseDups_cons, List.filter_append,
        List.contains_cons]
      cases ha : a == first with
      | true => simp [ha]
      | false =>
        have hcontains : (rest.filter fun b => !b == first).contains a = rest.contains a := by
          rw [Bool.eq_iff_iff, List.contains_iff_exists_mem_beq, List.contains_iff_exists_mem_beq]
          constructor
          · rintro ⟨b, hb, hab⟩
            exact ⟨b, List.mem_of_mem_filter hb, hab⟩
          · rintro ⟨b, hb, hab⟩
            refine ⟨b, List.mem_filter.mpr ⟨hb, ?_⟩, hab⟩
            rw [← BEq.congr_left hab, ha]
            rfl
        have hlast : [a].filter (fun b => !b == first) = [a] := by simp [ha]
        rw [hlast, ih _ hless _ rfl, hcontains, Bool.false_or]
        split_ifs <;> rfl

/-- Every item has an equal one that stays. -/
theorem contains_eraseDups (items : List α) (a : α) :
    items.eraseDups.contains a = items.contains a := by
  induction items using List.reverseRecOn with
  | nil => rfl
  | append_singleton items last ih =>
    rw [eraseDups_concat, List.contains_append]
    split_ifs with hlast
    · cases ha : a == last with
      | true => simp [ih, List.contains_congr ha, hlast]
      | false => simp [ih, ha]
    · rw [List.contains_append, ih]

/-- No two items that stay are equal. -/
theorem pairwise_eraseDups (items : List α) :
    items.eraseDups.Pairwise fun a b => (a == b) = false := by
  induction items using List.reverseRecOn with
  | nil => exact .nil
  | append_singleton items last ih =>
    rw [eraseDups_concat]
    split_ifs with hlast
    · exact ih
    · refine List.pairwise_append.mpr ⟨ih, List.pairwise_singleton .., fun a ha b hb => ?_⟩
      rw [List.mem_singleton.mp hb]
      by_contra heq
      refine hlast ?_
      rw [← contains_eraseDups]
      exact List.contains_iff_exists_mem_beq.mpr
        ⟨a, ha, BEq.symm (Bool.not_eq_false _ ▸ heq)⟩

theorem eraseDups_getElem?_inj {items : List α} {m n : Nat} {a b : α}
    (ha : items.eraseDups[m]? = some a) (hb : items.eraseDups[n]? = some b)
    (hab : (a == b) = true) : m = n := by
  obtain ⟨hm, rfl⟩ := List.getElem?_eq_some_iff.mp ha
  obtain ⟨hn, rfl⟩ := List.getElem?_eq_some_iff.mp hb
  have hdistinct := List.pairwise_iff_getElem.mp (pairwise_eraseDups items)
  rcases Nat.lt_trichotomy m n with hlt | heq | hgt
  · exact absurd hab (Bool.eq_false_iff.mp (hdistinct m n hm hn hlt))
  · exact heq
  · exact absurd (BEq.symm hab) (Bool.eq_false_iff.mp (hdistinct n m hn hm hgt))

/-- Items that come later change nothing for those before them. -/
theorem eraseDups_prefix_append (items more : List α) :
    items.eraseDups <+: (items ++ more).eraseDups := by
  induction more using List.reverseRecOn with
  | nil => simp
  | append_singleton more last ih =>
    rw [← List.append_assoc, eraseDups_concat]
    split_ifs
    · exact ih
    · exact ih.trans (List.prefix_append _ _)

theorem place?_eq_none_iff {items : List α} {a : α} :
    place? items a = none ↔ items.contains a = false := by
  rw [place?, List.findIdx?_eq_none_iff, ← contains_eraseDups, List.contains_eq_any_beq,
    List.any_eq_false]
  simp only [BEq.comm, Bool.not_eq_true]

theorem place?_append {items : List α} {a : α} {place : Nat} (h : place? items a = some place)
    (more : List α) : place? (items ++ more) a = some place :=
  (eraseDups_prefix_append items more).findIdx?_eq_some h

theorem place?_congr {items : List α} {a b : α} (h : (a == b) = true) :
    place? items a = place? items b := by
  have hequal : (fun c => c == a) = fun c => c == b := funext fun c => BEq.congr_right h
  rw [place?, hequal, place?]

/-- Items have one place exactly when they are equal. -/
theorem place?_inj {items : List α} {a b : α} {m n : Nat} (ha : place? items a = some m)
    (hb : place? items b = some n) : m = n ↔ (a == b) = true := by
  constructor
  · rintro rfl
    obtain ⟨equal, hequal, hea⟩ := getElem?_of_place? ha
    obtain ⟨other, hother, hob⟩ := getElem?_of_place? hb
    rw [hequal, Option.some_inj] at hother
    subst hother
    exact BEq.trans (BEq.symm hea) hob
  · intro h
    rw [place?_congr h, hb, Option.some_inj] at ha
    exact ha.symm

/-- An item that is new gets the last place. -/
theorem place?_concat_of_new {items : List α} {a : α} (h : place? items a = none) :
    place? (items ++ [a]) a = some items.eraseDups.length := by
  have hnew : items.contains a = false := place?_eq_none_iff.mp h
  rw [place?, eraseDups_concat, hnew, if_neg Bool.false_ne_true, List.findIdx?_append]
  unfold place? at h
  simp [h]

/-- What stays has the place where it stays. -/
theorem place?_of_getElem? {items : List α} {a : α} {place : Nat}
    (h : items.eraseDups[place]? = some a) : place? items a = some place := by
  cases hplace : place? items a with
  | none =>
    have hmem := List.contains_iff_exists_mem_beq.mpr ⟨a, List.mem_of_getElem? h, BEq.rfl⟩
    rw [contains_eraseDups, place?_eq_none_iff.mp hplace] at hmem
    contradiction
  | some other =>
    obtain ⟨equal, hequal, hea⟩ := getElem?_of_place? hplace
    rw [eraseDups_getElem?_inj hequal h hea]

/-- Nothing stays but what was there. -/
theorem mem_of_mem_eraseDups {items : List α} {a : α} (h : a ∈ items.eraseDups) : a ∈ items := by
  induction items using List.reverseRecOn with
  | nil => simp at h
  | append_singleton items last ih =>
    rw [eraseDups_concat] at h
    split_ifs at h
    · exact List.mem_append_left _ (ih h)
    · rcases List.mem_append.mp h with h | h
      · exact List.mem_append_left _ (ih h)
      · exact List.mem_append_right _ h

/-- Names that tell the items apart stay where the items do. -/
theorem eraseDups_map {β : Type} [BEq β] [EquivBEq β] {name : α → β}
    (h : ∀ a b, (name a == name b) = (a == b)) (items : List α) :
    (items.map name).eraseDups = items.eraseDups.map name := by
  induction items using List.reverseRecOn with
  | nil => simp
  | append_singleton items last ih =>
    have hcontains : (items.map name).contains (name last) = items.contains last := by
      rw [List.contains_eq_any_beq, List.contains_eq_any_beq, List.any_map]
      exact congrArg items.any (funext (h last))
    rw [List.map_append, List.map_singleton, eraseDups_concat, eraseDups_concat, hcontains, ih]
    split_ifs <;> simp

end FirstSeen

namespace Palette

open FirstSeen

/-- What becomes of a palette when blocks are added to it once: its slots stay, the blocks that are
left without later equals have slots behind them, and the keys of all of them lead there. -/
structure Gathers (start p : Palette) (slots : Dictionary Nat) (seen : List Block) : Prop where
  slots_eq : p.slots.toList = start.slots.toList ++ seen.eraseDups.map some
  get?_key : ∀ block, slots.get? block.key = (place? seen block).map (start.size + ·)

namespace Gathers

variable {start p : Palette} {slots : Dictionary Nat} {seen : List Block}

theorem nil (start : Palette) : Gathers start start [] [] :=
  ⟨by simp, fun _ => rfl⟩

theorem size_eq (h : Gathers start p slots seen) :
    p.size = start.size + seen.eraseDups.length := by
  rw [size, ← Array.length_toList, h.slots_eq]
  simp [size]

/-- Behind the slots of the start are the blocks that were added. -/
theorem block?_add (h : Gathers start p slots seen) (place : Nat) :
    p.block? (start.size + place) = seen.eraseDups[place]? := by
  have hlength : start.size = start.slots.toList.length := by simp [size]
  rw [block?, ← Array.getElem?_toList, h.slots_eq, hlength,
    List.getElem?_append_right (Nat.le_add_right _ _), Nat.add_sub_cancel_left, List.getElem?_map]
  cases seen.eraseDups[place]? <;> rfl

theorem extends_start (h : Gathers start p slots seen) : start.Extends p := by
  refine ⟨h.size_eq ▸ Nat.le_add_right _ _, fun slot hslot => ?_⟩
  have hlength : slot < start.slots.toList.length := by simpa [size] using hslot
  rw [block?, block?, ← Array.getElem?_toList, ← Array.getElem?_toList, h.slots_eq,
    List.getElem?_append_left hlength]

/-- An equal block is there, and its slot is the one of the block. -/
theorem found (h : Gathers start p slots seen) {block : Block} {slot : Nat}
    (hslot : slots.get? block.key = some slot) :
    Gathers start p slots (seen ++ [block]) ∧
      ∃ place, place? (seen ++ [block]) block = some place ∧ slot = start.size + place := by
  rw [h.get?_key] at hslot
  obtain ⟨place, hplace, hslot⟩ := Option.map_eq_some_iff.mp hslot
  have hseen : seen.contains block = true := by
    by_contra hnew
    rw [place?_eq_none_iff.mpr (Bool.not_eq_true _ ▸ hnew)] at hplace
    contradiction
  have hsame : (seen ++ [block]).eraseDups = seen.eraseDups := by
    rw [eraseDups_concat, if_pos hseen]
  refine ⟨⟨hsame ▸ h.slots_eq, fun other => ?_⟩, place, place?_append hplace _, hslot.symm⟩
  rw [h.get?_key, place?, place?, hsame]

/-- A block without an equal one gets a slot at the end. -/
theorem missed (h : Gathers start p slots seen) {block : Block}
    (hslot : slots.get? block.key = none) :
    Gathers start (p.push (some block)) ((block.key, p.size) :: slots) (seen ++ [block]) ∧
      ∃ place, place? (seen ++ [block]) block = some place ∧ p.size = start.size + place := by
  rw [h.get?_key, Option.map_eq_none_iff] at hslot
  have hlast := place?_concat_of_new hslot
  have hmore : (seen ++ [block]).eraseDups = seen.eraseDups ++ [block] := by
    rw [eraseDups_concat, place?_eq_none_iff.mp hslot, if_neg Bool.false_ne_true]
  refine ⟨⟨?_, fun other => ?_⟩, _, hlast, h.size_eq⟩
  · rw [push, Array.toList_push, h.slots_eq, hmore, List.map_append, List.append_assoc]
    rfl
  · rw [Dictionary.get?_cons]
    split_ifs with hkey
    · rw [← place?_congr (Block.beq_iff_key_eq.mpr hkey), hlast, h.size_eq]
      rfl
    · rw [h.get?_key, place?, place?, hmore, List.findIdx?_append]
      have hother : (block == other) = false :=
        Bool.eq_false_iff.mpr fun hequal => hkey (Block.beq_iff_key_eq.mp hequal)
      simp [hother]

end Gathers

end Palette

end Hologram
