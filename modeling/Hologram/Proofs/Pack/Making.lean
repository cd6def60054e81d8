import Hologram.Pack.Basic
import Hologram.Proofs.Outcome
import Hologram.Proofs.Structure.Assembly
import Hologram.Proofs.Structure.Stability

/-! What a pack is made of. Every part follows from the palette in common and from the layers that
refer to it. -/
namespace Hologram

namespace Reporting

variable {α β : Type}

/-- A computation succeeds with a result, after some reports. -/
def Gives (computation : Reporting α) (a : α) : Prop :=
  ∃ before, (computation.run.run before).1 = .ok a

theorem gives_of_outcome {computation : Reporting α} {a : α}
    (h : computation.outcome.1 = .ok a) : Gives computation a :=
  ⟨[], h⟩

theorem Gives.bind {x : Reporting α} {f : α → Reporting β} {b : β} (h : Gives (x >>= f) b) :
    ∃ a, Gives x a ∧ Gives (f a) b := by
  obtain ⟨before, h⟩ := h
  rw [ExceptT.run_bind, StateT.run_bind] at h
  cases hx : x.run.run before with
  | mk result after =>
    rw [hx] at h
    cases result with
    | error e => contradiction
    | ok a => exact ⟨a, ⟨before, congrArg Prod.fst hx⟩, after, h⟩

theorem Gives.pure {a b : α} (h : Gives (Pure.pure a) b) : a = b := by
  obtain ⟨before, h⟩ := h
  exact Except.ok.inj h

theorem Gives.mk {e : Except PackError α} {a : α}
    (h : Gives (ExceptT.mk (Pure.pure e)) a) : e = .ok a := by
  obtain ⟨before, h⟩ := h
  exact h

theorem not_gives_throw {e : PackError} {a : α} : ¬ Gives (throw e) a := by
  rintro ⟨before, h⟩
  contradiction

end Reporting

namespace Pack

variable {config : Config} {upgrader : Upgrader}

def rows (pack : Pack) : List (List (List Placement)) :=
  List.zipWith (fun size layers => Placement.rows size pack.palette layers) pack.sizes
    pack.structures

/-- How the parts of a pack belong together: the layers have one reference for each voxel, and the
bones, animations and scripts are those of the blocks. -/
structure Fits (config : Config) (pack : Pack) : Prop where
  layers : List.Forall₂ (fun size layers =>
    layers ≠ [] ∧ ∀ layer ∈ layers, Array.size layer = size.voxelCount) pack.sizes pack.structures
  animations : pack.animations = pack.rows.zipIdx.map fun (rows, index) =>
    Animation.ofRows index config.miniScale rows
  bones : pack.bones =
    templateBones pack.palette ++ (Skeleton.ofRows pack.rows).bones.toList
  scripts : EntityScripts.ofStructures config pack.sizes (pack.rows.map Validation.ofRows) =
    .ok pack.scripts

open Reporting

/-- The structures of a pack are those that were saved, in their order and clean. -/
theorem forall₂_of_cleanAll {saved : List SavedStructure} {structures : List Structure}
    (h : Gives (cleanAll config upgrader saved) structures) :
    List.Forall₂ (fun original s => ∃ reports,
      Structure.ofSaved config upgrader original = .ok (s, reports)) saved structures := by
  induction saved generalizing structures with
  | nil =>
    obtain rfl := Gives.pure h
    exact .nil
  | cons first rest ih =>
    obtain ⟨⟨s, reports⟩, hs, h⟩ := Gives.bind h
    obtain ⟨-, -, h⟩ := Gives.bind h
    obtain ⟨others, hothers, h⟩ := Gives.bind h
    obtain rfl := Gives.pure h
    exact .cons ⟨reports, Gives.mk hs⟩ (ih hothers)

/-- The structures of a pack are clean. -/
theorem ofSaved_of_cleanAll {saved : List SavedStructure} {structures : List Structure}
    (h : Gives (cleanAll config upgrader saved) structures) :
    ∀ s ∈ structures, ∃ original reports,
      Structure.ofSaved config upgrader original = .ok (s, reports) := by
  have hall := forall₂_of_cleanAll h
  clear h
  induction hall with
  | nil => exact fun _ hs => absurd hs List.not_mem_nil
  | cons hfirst _ ih => exact List.forall_mem_cons.mpr ⟨⟨_, hfirst⟩, ih⟩

/-- Clean structures have the sizes that they were saved with. -/
theorem sizes_of_cleanAll {saved : List SavedStructure} {structures : List Structure}
    (h : Gives (cleanAll config upgrader saved) structures) :
    structures.map (·.size) = saved.map (·.size) := by
  have hsizes := (forall₂_of_cleanAll h).imp fun original s ⟨reports, hs⟩ =>
    (Structure.size_of_ofSaved hs).1
  symm
  rw [← List.forall₂_eq_eq_eq, List.forall₂_map_left_iff, List.forall₂_map_right_iff]
  exact hsizes.imp fun _ _ hsize => hsize.symm

/-- Carried layers have the shapes of the layers that they come from. -/
theorem layers_of_carry {structures : List Structure} {assembly : Assembly}
    (hclean : ∀ s ∈ structures, ∃ original reports,
      Structure.ofSaved config upgrader original = .ok (s, reports))
    (hcarry : List.Forall₂ (Assembly.LayersCarry assembly.palette) structures
      assembly.structures) :
    List.Forall₂ (fun size layers =>
      layers ≠ [] ∧ ∀ layer ∈ layers, Array.size layer = size.voxelCount)
      (structures.map (·.size)) assembly.structures := by
  have hshapes : ∀ s ∈ structures,
      s.layers ≠ [] ∧ ∀ layer ∈ s.layers, layer.size = s.size.voxelCount := by
    intro s hs
    obtain ⟨original, reports, horiginal⟩ := hclean s hs
    obtain ⟨hne, hsizes, -⟩ := Structure.clean_of_ofSaved horiginal
    exact ⟨hne, hsizes⟩
  rw [List.forall₂_map_left_iff]
  refine ((List.forall₂_and_left _ _).mpr ⟨hshapes, hcarry⟩).imp ?_
  rintro s layers ⟨⟨hne, hsizes⟩, hlayers⟩
  have heq := Assembly.LayersCarry.sizes hlayers
  constructor
  · rintro rfl
    exact hne (List.map_eq_nil_iff.mp heq)
  · intro layer hlayer
    obtain ⟨original, horiginal, hsize⟩ := List.mem_map.mp (heq ▸ List.mem_map_of_mem hlayer)
    exact hsize ▸ hsizes original horiginal

/-- A pack is made from clean structures, which are brought under one palette with a live slot. -/
theorem exists_clean_of_make {saved : List SavedStructure} {pack : Pack}
    (h : (make config upgrader saved).outcome.1 = .ok pack) :
    ∃ structures, Gives (cleanAll config upgrader saved) structures ∧
      pack.sizes = structures.map (·.size) ∧
      (pack.palette = (Assembly.ofStructures structures).1.palette ∧
        pack.palette.liveCount ≠ 0) ∧
      pack.structures = (Assembly.ofStructures structures).1.structures ∧
      (pack.animations = pack.rows.zipIdx.map fun (rows, index) =>
        Animation.ofRows index config.miniScale rows) ∧
      pack.bones = templateBones pack.palette ++ (Skeleton.ofRows pack.rows).bones.toList ∧
      EntityScripts.ofStructures config pack.sizes (pack.rows.map Validation.ofRows) =
        .ok pack.scripts ∧
      pack.locators = locatorsOf (pack.rows.map Validation.ofRows) ∧
      pack.controllers = controllersOf config.validationParticleNamespace pack.sizes
        (pack.rows.map Validation.ofRows) := by
  have h := gives_of_outcome h
  unfold make at h
  split_ifs at h
  · exact absurd h not_gives_throw
  obtain ⟨structures, hclean, h⟩ := Gives.bind h
  refine ⟨structures, hclean, ?_⟩
  cases hassembly : Assembly.ofStructures structures with
  | mk assembly reports =>
    rw [hassembly] at h
    dsimp only at h
    obtain ⟨-, -, h⟩ := Gives.bind h
    split_ifs at h with hlive
    · exact absurd h not_gives_throw
    obtain ⟨-, -, h⟩ := Gives.bind h
    obtain ⟨-, -, h⟩ := Gives.bind h
    obtain ⟨scripts, hscripts, h⟩ := Gives.bind h
    obtain ⟨-, -, h⟩ := Gives.bind h
    obtain rfl := Gives.pure h
    exact ⟨rfl, ⟨rfl, hlive⟩, rfl, rfl, rfl, Gives.mk hscripts, rfl, rfl⟩

/-- The structures of a pack have the sizes that they were saved with. -/
theorem sizes_of_make {saved : List SavedStructure} {pack : Pack}
    (h : (make config upgrader saved).outcome.1 = .ok pack) :
    pack.sizes = saved.map (·.size) := by
  obtain ⟨structures, hclean, hsizes, -⟩ := exists_clean_of_make h
  rw [hsizes, sizes_of_cleanAll hclean]

/-- A pack is made from clean structures, and its parts belong together. -/
theorem fits_of_make {saved : List SavedStructure} {pack : Pack}
    (h : (make config upgrader saved).outcome.1 = .ok pack) : pack.Fits config := by
  obtain ⟨structures, hclean, hsizes, -, hstructures, hanimations, hbones, hscripts, -⟩ :=
    exists_clean_of_make h
  have hlayers := layers_of_carry (ofSaved_of_cleanAll hclean)
    (Assembly.ofStructures_carry structures)
  rw [← hsizes, ← hstructures] at hlayers
  exact ⟨hlayers, hanimations, hbones, hscripts⟩

end Pack
end Hologram
