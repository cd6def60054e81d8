import Hologram.Proofs.Structure.Renames
import Hologram.Proofs.Structure.Stability

/-! What is wrong with a saved structure that has no clean form. Layers are looked at before the
palette, each from its beginning, and the data of entities are never at fault. -/
namespace Hologram

section

variable {α : Type}

/-- A list with numbers falls into parts where the list does, and the numbers go on. -/
theorem zipIdx_eq_append_cons_iff {items : List α} {before after : List (α × Nat)} {item : α}
    {number : Nat} : items.zipIdx = before ++ (item, number) :: after ↔
      ∃ first last, items = first ++ item :: last ∧ before = first.zipIdx ∧
        number = first.length ∧ after = last.zipIdx (first.length + 1) := by
  rw [List.zipIdx_eq_append_iff]
  constructor
  · rintro ⟨first, rest, rfl, rfl, hrest⟩
    obtain ⟨other, last, rfl, hentry, rfl⟩ := List.zipIdx_eq_cons_iff.mp hrest.symm
    obtain ⟨rfl, rfl⟩ := Prod.mk.inj hentry
    exact ⟨first, last, rfl, rfl, Nat.zero_add _, by rw [Nat.zero_add]⟩
  · rintro ⟨first, last, rfl, rfl, rfl, rfl⟩
    exact ⟨first, item :: last, rfl, rfl, by simp⟩

end

namespace Upgrader

/-- A name falls into two parts in one way. -/
theorem Splits.splitNamespace_eq {whole space name : String} (h : Splits whole space name) :
    splitNamespace whole = (space, name) := by
  obtain ⟨rfl, ⟨rfl, hname⟩ | ⟨start, hstart, rfl⟩⟩ := h
  · simp [splitNamespace, hname]
  · have hlist : (start ++ ":" ++ name).toList = start.toList ++ ':' :: name.toList := by simp
    have hpass : ∀ c ∈ start.toList, (c != ':') = true := by
      intro c hc
      exact bne_iff_ne.mpr fun h => hstart (h ▸ hc)
    unfold splitNamespace
    dsimp only
    rw [hlist, List.takeWhile_append_of_pos hpass, List.dropWhile_append_of_pos hpass]
    simp

/-- A block that is out of date begins a chain of renames that never ends. -/
def Endless (upgrader : Upgrader) (block : SavedBlock) : Prop :=
  upgrader.isOutdated block = true ∧ ∃ latest table, upgrader = rename latest table ∧
    ∃ space name, Splits block.name space name ∧
      ∀ last, Relation.ReflTransGen (Renames table) name last → table.get? last ≠ none

theorem endless_rename_iff {latest : Int} {table : Dictionary String} {block : SavedBlock} :
    (rename latest table).Endless block ↔ (rename latest table).isOutdated block = true ∧
      chainEnd? table table.length (splitNamespace block.name).2 = none := by
  refine and_congr_right fun _ => ?_
  rw [Option.eq_none_iff_forall_ne_some]
  simp only [ne_eq, chainEnd?_length_eq_some_iff, not_and]
  constructor
  · rintro ⟨_, _, heq, space, name, hsplits, hendless⟩
    obtain ⟨-, rfl⟩ := rename.inj heq
    rwa [hsplits.splitNamespace_eq]
  · intro hendless
    exact ⟨latest, table, rfl, _, _, splits_splitNamespace block.name, hendless⟩

theorem updateIfOutdated_eq_error_iff {upgrader : Upgrader} {block : SavedBlock} {e : PackError} :
    upgrader.updateIfOutdated block = .error e ↔
      upgrader.Endless block ∧ e = .endlessRenames block.name := by
  unfold updateIfOutdated
  cases houtdated : upgrader.isOutdated block with
  | false => simp [Endless, houtdated]
  | true =>
    cases upgrader with
    | keep => contradiction
    | rename latest table =>
      rw [endless_rename_iff, if_pos rfl, update, run_updateInPlace_rename]
      cases chainEnd? table table.length (splitNamespace block.name).2 with
      | none => simp [houtdated, eq_comm]
      | some last => simp

end Upgrader

namespace SavedBlock

variable {config : Config} {upgrader : Upgrader} {b : SavedBlock} {entry : Nat} {e : PackError}

/-- A palette entry that has no clean form. -/
def IsMalformed (upgrader : Upgrader) (b : SavedBlock) : Prop :=
  b.name = "" ∨ upgrader.Endless b

/-- What is wrong with the palette entry of a number. -/
inductive Fault (upgrader : Upgrader) (entry : Nat) (b : SavedBlock) : PackError → Prop
  | unnamed (h : b.name = "") : Fault upgrader entry b (.unnamedBlock entry)
  | endless (hname : b.name ≠ "") (h : upgrader.Endless b) :
    Fault upgrader entry b (.endlessRenames b.name)

theorem exists_fault_iff : (∃ e, b.Fault upgrader entry e) ↔ b.IsMalformed upgrader := by
  constructor
  · rintro ⟨e, h | ⟨-, h⟩⟩
    · exact .inl h
    · exact .inr h
  · intro h
    by_cases hname : b.name = ""
    · exact ⟨_, .unnamed hname⟩
    · exact ⟨_, .endless hname (h.resolve_left hname)⟩

theorem cleaned_eq_error_iff :
    b.cleaned config upgrader entry = .error e ↔ b.Fault upgrader entry e := by
  unfold cleaned
  by_cases hname : b.name = ""
  · constructor
    · intro h
      rw [if_pos (by simp [hname])] at h
      cases h
      exact .unnamed hname
    · rintro (h | ⟨hnamed, -⟩)
      · rw [if_pos (by simp [hname])]
        rfl
      · exact absurd hname hnamed
  · rw [if_neg (by simpa using hname)]
    constructor
    · intro h
      cases hcurrent : upgrader.updateIfOutdated b with
      | error found =>
        obtain ⟨hendless, rfl⟩ := Upgrader.updateIfOutdated_eq_error_iff.mp hcurrent
        rw [hcurrent] at h
        cases h
        exact .endless hname hendless
      | ok current =>
        rw [hcurrent, ok_bind] at h
        dsimp only at h
        split_ifs at h <;> contradiction
    · rintro (h | ⟨-, hendless⟩)
      · exact absurd h hname
      · rw [Upgrader.updateIfOutdated_eq_error_iff.mpr ⟨hendless, rfl⟩]
        rfl

theorem exists_cleaned_iff :
    (∃ slot, b.cleaned config upgrader entry = .ok slot) ↔ ¬ b.IsMalformed upgrader := by
  rw [← @exists_fault_iff upgrader b entry]
  simp only [← @cleaned_eq_error_iff config]
  cases b.cleaned config upgrader entry <;> simp

end SavedBlock

/-- What is wrong with a saved structure: the first layer that has not one reference for each voxel,
or else the first palette entry that has no clean form. -/
inductive SavedStructure.Fault (upgrader : Upgrader) (s : SavedStructure) : PackError → Prop
  | noLayers (h : s.layers = []) : Fault upgrader s (.noLayers s.name)
  | layerLength {before after : List Layer} {layer : Layer} (h : s.layers = before ++ layer :: after)
      (hbefore : ∀ other ∈ before, Array.size other = s.size.voxelCount)
      (hlayer : Array.size layer ≠ s.size.voxelCount) :
    Fault upgrader s (.layerLength before.length s.name layer.size s.size)
  | entry {before after : List SavedBlock} {b : SavedBlock} {e : PackError} (hsome : s.layers ≠ [])
      (hlayers : ∀ layer ∈ s.layers, Array.size layer = s.size.voxelCount)
      (h : s.palette = before ++ b :: after)
      (hbefore : ∀ other ∈ before, ¬ other.IsMalformed upgrader)
      (hb : b.Fault upgrader before.length e) : Fault upgrader s e

namespace Structure

variable {config : Config} {upgrader : Upgrader}

theorem oddLayer?_eq_some_iff {size : Size} {layers : List Layer} {layer : Layer} {number : Nat} :
    oddLayer? size layers = some (layer, number) ↔ ∃ before after,
      layers = before ++ layer :: after ∧ number = before.length ∧
        (∀ other ∈ before, Array.size other = size.voxelCount) ∧
        Array.size layer ≠ size.voxelCount := by
  unfold oddLayer?
  rw [List.find?_eq_some_iff_append]
  simp only [zipIdx_eq_append_cons_iff, bne_iff_ne, Bool.not_eq_true', bne_eq_false_iff_eq]
  constructor
  · rintro ⟨hlayer, _, _, ⟨before, after, hlayers, rfl, hnumber, rfl⟩, hbefore⟩
    refine ⟨before, after, hlayers, hnumber, fun other hother => ?_, hlayer⟩
    obtain ⟨i, hi⟩ := List.mem_iff_getElem?.mp hother
    exact hbefore (other, i) (List.mk_mem_zipIdx_iff_getElem?.mpr hi)
  · rintro ⟨before, after, hlayers, hnumber, hbefore, hlayer⟩
    refine ⟨hlayer, _, _, ⟨before, after, hlayers, rfl, hnumber, rfl⟩, fun entry hentry => ?_⟩
    exact hbefore entry.1 (List.fst_mem_of_mem_zipIdx hentry)

theorem cleanPalette_eq_error_iff {blocks : List SavedBlock} {e : PackError} :
    cleanPalette config upgrader blocks = .error e ↔ ∃ before b after,
      blocks = before ++ b :: after ∧ (∀ other ∈ before, ¬ other.IsMalformed upgrader) ∧
        b.Fault upgrader before.length e := by
  have hmapM : cleanPalette config upgrader blocks = .error e ↔ (blocks.zipIdx.mapM fun entry =>
      entry.1.cleaned config upgrader entry.2) = .error e := by
    unfold cleanPalette
    cases blocks.zipIdx.mapM fun entry : SavedBlock × Nat =>
      entry.1.cleaned config upgrader entry.2 <;> simp [pure, Except.pure]
  rw [hmapM, mapM_eq_error_iff]
  simp only [SavedBlock.exists_cleaned_iff, SavedBlock.cleaned_eq_error_iff]
  constructor
  · rintro ⟨_, ⟨b, number⟩, _, hblocks, hbefore, hb⟩
    obtain ⟨before, after, rfl, rfl, rfl, -⟩ := zipIdx_eq_append_cons_iff.mp hblocks
    refine ⟨before, b, after, rfl, fun other hother => ?_, hb⟩
    obtain ⟨i, hi⟩ := List.mem_iff_getElem?.mp hother
    exact hbefore (other, i) (List.mk_mem_zipIdx_iff_getElem?.mpr hi)
  · rintro ⟨before, b, after, rfl, hbefore, hb⟩
    refine ⟨_, (b, before.length), _,
      zipIdx_eq_append_cons_iff.mpr ⟨before, after, rfl, rfl, rfl, rfl⟩, fun other hother => ?_, hb⟩
    exact hbefore other.1 (List.fst_mem_of_mem_zipIdx hother)

theorem not_isMalformed_of_cleanPalette {blocks : List SavedBlock} {palette : Palette}
    (h : cleanPalette config upgrader blocks = .ok palette) :
    ∀ b ∈ blocks, ¬ b.IsMalformed upgrader := by
  obtain ⟨slots, hslots, -⟩ := bind_eq_ok.mp h
  have hall := forall₂_of_mapM_eq_ok hslots
  intro b hb
  obtain ⟨entry, hentry, rfl⟩ := List.getElem_of_mem hb
  have hlength : entry < slots.length := by
    rw [← hall.length_eq, List.length_zipIdx]
    exact hentry
  have hcleaned := hall.get (i := entry) (by simpa using hentry) hlength
  exact SavedBlock.exists_cleaned_iff.mp ⟨_, by simpa using hcleaned⟩

/-- Cleaning looks at the layers before the palette, and nothing that comes after them fails. -/
theorem ofSaved_eq_error_cases {s : SavedStructure} {e : PackError} :
    ofSaved config upgrader s = .error e ↔ (s.layers = [] ∧ e = .noLayers s.name) ∨
      (∃ layer number, oddLayer? s.size s.layers = some (layer, number) ∧
        e = .layerLength number s.name layer.size s.size) ∨
      (s.layers ≠ [] ∧ oddLayer? s.size s.layers = none ∧
        cleanPalette config upgrader s.palette = .error e) := by
  unfold ofSaved
  cases s.layers with
  | nil =>
    have hodd : oddLayer? s.size [] = none := rfl
    simp [hodd, eq_comm, throw, throwThe, MonadExceptOf.throw]
  | cons primary others =>
    cases oddLayer? s.size (primary :: others) with
    | some found =>
      obtain ⟨layer, number⟩ := found
      simp [eq_comm, throw, throwThe, MonadExceptOf.throw]
    | none =>
      cases cleanPalette config upgrader s.palette <;> simp [pure, Except.pure]

/-- Cleaning fails for the first fault of a saved structure. -/
theorem ofSaved_eq_error_iff {s : SavedStructure} {e : PackError} :
    ofSaved config upgrader s = .error e ↔ s.Fault upgrader e := by
  rw [ofSaved_eq_error_cases]
  constructor
  · rintro (⟨hnil, rfl⟩ | ⟨layer, number, hodd, rfl⟩ | ⟨hsome, hodd, he⟩)
    · exact .noLayers hnil
    · obtain ⟨before, after, hlayers, rfl, hbefore, hlayer⟩ := oddLayer?_eq_some_iff.mp hodd
      exact .layerLength hlayers hbefore hlayer
    · obtain ⟨before, b, after, hpalette, hbefore, hb⟩ := cleanPalette_eq_error_iff.mp he
      exact .entry hsome (oddLayer?_eq_none_iff.mp hodd) hpalette hbefore hb
  · intro h
    cases h with
    | noLayers hnil => exact .inl ⟨hnil, rfl⟩
    | @layerLength before after layer hlayers hbefore hlayer =>
      exact .inr (.inl ⟨layer, before.length,
        oddLayer?_eq_some_iff.mpr ⟨before, after, hlayers, rfl, hbefore, hlayer⟩, rfl⟩)
    | @entry before after b _ hsome hlayers hpalette hbefore hb =>
      exact .inr (.inr ⟨hsome, oddLayer?_eq_none_iff.mpr hlayers,
        cleanPalette_eq_error_iff.mpr ⟨before, b, after, hpalette, hbefore, hb⟩⟩)

theorem upgraded_of_ofSaved {s : SavedStructure} {n : Structure} {reports : List Report}
    (h : ofSaved config upgrader s = .ok (n, reports)) :
    n.upgraded = s.palette.countP upgrader.isOutdated := by
  unfold ofSaved at h
  cases hlayers : s.layers with
  | nil =>
    rw [hlayers] at h
    contradiction
  | cons primary others =>
    rw [hlayers] at h
    dsimp only at h
    split at h
    · contradiction
    · obtain ⟨palette, -, h⟩ := bind_eq_ok.mp h
      cases h
      rfl

/-- Cleaning fails exactly when a saved structure has no layers, a layer that has not one reference
for each voxel, an entry without a name, or one that is out of date and begins a chain of renames
that never ends. Of several faults the first one is reported, those of layers before those of
entries. Otherwise the clean structure counts the entries that were out of date. -/
theorem faults_of_ofSaved (config : Config) (upgrader : Upgrader) (s : SavedStructure) :
    ((∃ e, ofSaved config upgrader s = .error e) ↔ s.layers = [] ∨
      (∃ layer ∈ s.layers, Array.size layer ≠ s.size.voxelCount) ∨
      ∃ b ∈ s.palette, b.name = "" ∨ upgrader.Endless b) ∧
    (∀ e, ofSaved config upgrader s = .error e ↔ s.Fault upgrader e) ∧
    ∀ n reports, ofSaved config upgrader s = .ok (n, reports) →
      n.upgraded = s.palette.countP upgrader.isOutdated := by
  refine ⟨⟨?_, fun hbad => ?_⟩, fun e => ofSaved_eq_error_iff, fun n reports h =>
    upgraded_of_ofSaved h⟩
  · rintro ⟨e, he⟩
    cases ofSaved_eq_error_iff.mp he with
    | noLayers hnil => exact .inl hnil
    | layerLength hlayers _ hlayer => exact .inr (.inl ⟨_, by simp [hlayers], hlayer⟩)
    | entry _ _ hpalette _ hb =>
      exact .inr (.inr ⟨_, by simp [hpalette], SavedBlock.exists_fault_iff.mp ⟨_, hb⟩⟩)
  · cases h : ofSaved config upgrader s with
    | error e => exact ⟨e, rfl⟩
    | ok result =>
      obtain ⟨primary, others, palette, folded, retired, hlayers, hclean, -⟩ := ofSaved_cases h
      rcases hbad with hnil | ⟨layer, hlayer, hodd⟩ | ⟨b, hb, hmalformed⟩
      · rw [hlayers] at hnil
        contradiction
      · exact absurd ((size_of_ofSaved h).2 layer hlayer) hodd
      · exact absurd hmalformed (not_isMalformed_of_cleanPalette hclean b hb)

/-- An endless chain is reported before a nameless entry that comes after it, and not at all when a
layer is at fault. -/
example :
    let upgrader := Upgrader.rename 2 [("a", "b"), ("b", "a")]
    let palette : List SavedBlock := [⟨"x:a", [], some 1, none⟩, ⟨"", [], none, none⟩]
    ofSaved .standard upgrader ⟨"s", ⟨1, 1, 1⟩, palette, [#[0]], {}⟩ matches
        .error (.endlessRenames "x:a") ∧
      ofSaved .standard upgrader ⟨"s", ⟨1, 1, 1⟩, palette, [#[0], #[]], {}⟩ matches
        .error (.layerLength 1 "s" 0 ⟨1, 1, 1⟩) := by
  decide +kernel

end Structure
end Hologram
