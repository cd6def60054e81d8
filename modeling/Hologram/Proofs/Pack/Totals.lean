import Hologram.Proofs.Pack.BlockCounts
import Hologram.Proofs.Pack.Making
import Hologram.Proofs.Pack.Starting

/-! What the scripts of a pack tell of its structures: the extents of the selected structure, and
the numbers of its blocks, as a whole and in the selected layer. -/
namespace Hologram

open Script

theorem Validation.length_blocks_eq_sum (rows : List (List Placement)) :
    (ofRows rows).blocks.length = (ofRows rows).counts.sum := by
  simp [ofRows, List.length_flatMap]

/-- Validation looks for blocks in every voxel at the most. -/
theorem Validation.fits_ofRows {size : Size} (palette : Palette) {first : Layer}
    (others : List Layer) (h : Array.size first = size.volume)
    (hextents : ∀ n ∈ size.extents, n < 2 ^ 32) (hvoxels : size.volume < 2 ^ 31) :
    Validation.Fits size
      (Validation.ofRows (Placement.rows size palette (first :: others))) := by
  have hblocks : (ofRows (Placement.rows size palette (first :: others))).blocks.length =
      first.liveCount palette := length_blocks_ofRows h
  have hle : first.liveCount palette ≤ size.volume := h ▸ first.liveCount_le palette
  have hheight : size.height < 2 ^ 32 := hextents _ (.tail _ (.head _))
  refine ⟨hextents, by omega, fun n hn => ?_, ?_⟩
  · have hsum := List.le_sum_of_mem hn
    rw [← length_blocks_eq_sum] at hsum
    omega
  · simp [ofRows, Placement.rows]
    omega

/-- A variable that is passed on has the number of blocks that it shows. -/
theorem Settings.Shown.hasTotal {sneaks : Bool} {s : Settings} {store : Store}
    (h : s.Shown sneaks store) {v : Variable} (hv : v.kind = .total) {n : Nat} (hs : s v = n)
    (hn : n ≤ 2 ^ 53) : store.HasInt v.name n := by
  have hshows := h.shows v
  rw [Variable.Shows, hv, hs] at hshows
  exact Store.Counts.hasInt ⟨_, hshows (Int.natCast_nonneg n), Number.isInt_ofInt hn⟩ hn

/-- A frame in which the player does not sneak shows the selected structure and layer, and no more
happens. -/
theorem Settings.exists_frame_idle {config : Config} {structures : List (Size × Validation)}
    {s : Settings} {store : Store} {size : Size} {validation : Validation} {i y m : Nat}
    (hconfig : config.Quotable) (hfits : config.Fits)
    (hwritable : EntityScripts.Writable structures) (hi : s .structureIndex = i)
    (hentry : structures[i]? = some (size, validation)) (hlayer : s .layer = y)
    (hy : y < size.height) (hm : validation.counts[y]? = some m) (hshown : s.Shown false store)
    (functions : Functions) : ∃ later,
      Program.executeText functions (EntityScripts.frameCode config (structures.map Prod.fst)
        (structures.map Prod.snd)).text store = (.ok none, later) ∧
      (refreshed false size validation.blocks.length m s).Shown false later := by
  have hheight : size.height < 2 ^ 32 := hwritable.height_lt (List.mem_of_getElem? hentry)
  obtain ⟨inLayer, hturns, hplace⟩ := @exists_turns_refreshed functions false config s structures
    size validation i hwritable hi hentry (by omega)
  have hfollowed : followed size s .layer = y := by
    rw [followed_layer, if_neg (by omega), hlayer]
  obtain rfl := hplace y hfollowed m hm
  obtain ⟨later, hlater, hshown'⟩ := hturns _ (turns_actions_idle rfl) store hshown
  have hread := EntityScripts.readable_frameCode hconfig hfits hwritable.numbered
  exact ⟨later, hlater.executeText hread, hshown'⟩

namespace Pack

variable {config : Config} {pack : Pack}

/-- Every structure has a primary layer with a reference for each voxel. -/
theorem Fits.exists_layers (h : pack.Fits config) {i : Nat} {size : Size}
    (hsize : pack.sizes[i]? = some size) : ∃ first others,
      pack.structures[i]? = some (first :: others) ∧ Array.size first = size.voxelCount ∧
      pack.rows[i]? = some (Placement.rows size pack.palette (first :: others)) := by
  obtain ⟨hlt, rfl⟩ := List.getElem?_eq_some_iff.mp hsize
  have hlt' : i < pack.structures.length := h.layers.length_eq ▸ hlt
  obtain ⟨hne, hsizes⟩ := h.layers.get hlt hlt'
  obtain ⟨first, others, heq⟩ := List.exists_cons_of_ne_nil hne
  have hlayers : pack.structures[i]? = some (first :: others) := by
    rw [List.getElem?_eq_getElem hlt', ← heq]
    rfl
  refine ⟨first, others, hlayers, hsizes first (heq ▸ .head _), ?_⟩
  rw [rows, List.getElem?_zipWith, hsize, hlayers]

/-- The number of these references is the product of the extents where that is small. -/
theorem Fits.exists_layers_of_lt (h : pack.Fits config) {i : Nat} {size : Size}
    (hsize : pack.sizes[i]? = some size) (hvoxels : size.volume < 2 ^ 31) : ∃ first others,
      pack.structures[i]? = some (first :: others) ∧ Array.size first = size.volume ∧
      pack.rows[i]? = some (Placement.rows size pack.palette (first :: others)) := by
  have hcount := Size.voxelCount_of_lt (Nat.lt_trans hvoxels (by decide))
  obtain ⟨first, others, hlayers, hfirst, hrows⟩ := h.exists_layers hsize
  exact ⟨first, others, hlayers, hfirst.trans hcount, hrows⟩

def validated (pack : Pack) : List (Size × Validation) :=
  pack.sizes.zip (pack.rows.map Validation.ofRows)

theorem Fits.length_rows (h : pack.Fits config) : pack.rows.length = pack.sizes.length := by
  have hlength := h.layers.length_eq
  simp [rows, hlength]

theorem Fits.scripts_eq (h : pack.Fits config) : ∃ first rest, pack.sizes = first :: rest ∧
    pack.scripts = ⟨EntityScripts.setupCode config pack.sizes.length first,
      EntityScripts.frameCode config (pack.validated.map Prod.fst)
        (pack.validated.map Prod.snd)⟩ := by
  have hlength := h.length_rows
  have hfirsts : pack.validated.map Prod.fst = pack.sizes := List.map_fst_zip (by simp [hlength])
  have hseconds : pack.validated.map Prod.snd = pack.rows.map Validation.ofRows :=
    List.map_snd_zip (by simp [hlength])
  have hscripts := h.scripts
  rw [hfirsts, hseconds]
  unfold EntityScripts.ofStructures at hscripts
  split at hscripts
  · contradiction
  · rename_i first rest hsizes
    exact ⟨first, rest, hsizes, (Except.ok.inj hscripts).symm⟩

/-- The scripts of a pack can be written. -/
theorem Fits.writable (h : pack.Fits config) (hlength : pack.sizes.length < 2 ^ 31)
    (hextents : ∀ size ∈ pack.sizes, ∀ n ∈ size.extents, n < 2 ^ 32)
    (hvoxels : ∀ size ∈ pack.sizes, size.volume < 2 ^ 31) :
    EntityScripts.Writable pack.validated := by
  refine ⟨?_, fun entry hentry => ?_⟩
  · have hzip : pack.validated.length ≤ pack.sizes.length := by
      simp [validated]
    omega
  · obtain ⟨i, hi⟩ := List.mem_iff_getElem?.mp hentry
    obtain ⟨hsize, hvalidation⟩ := List.getElem?_zip_eq_some.mp hi
    have hmem := List.mem_of_getElem? hsize
    obtain ⟨first, others, -, hfirst, hrows⟩ := h.exists_layers_of_lt hsize (hvoxels _ hmem)
    rw [List.getElem?_map, hrows] at hvalidation
    exact Option.some.inj hvalidation ▸
      Validation.fits_ofRows pack.palette others hfirst (hextents _ hmem) (hvoxels _ hmem)

/-- Validation counts the voxels of the primary layer that refer to a block. -/
theorem Fits.exists_validated (h : pack.Fits config) {i : Nat} {size : Size}
    (hsize : pack.sizes[i]? = some size) (hvoxels : size.volume < 2 ^ 31) :
    ∃ primary others validation,
      pack.structures[i]? = some (primary :: others) ∧ Array.size primary = size.volume ∧
      pack.validated[i]? = some (size, validation) ∧
      validation.blocks.length = primary.liveCount pack.palette ∧
      ∀ y < size.height,
        validation.counts[y]? = some (primary.liveCountAt size pack.palette y) := by
  obtain ⟨primary, others, hlayers, hprimary, hrows⟩ := h.exists_layers_of_lt hsize hvoxels
  refine ⟨primary, others, Validation.ofRows (Placement.rows size pack.palette
    (primary :: others)), hlayers, hprimary, ?_, Validation.length_blocks_ofRows hprimary,
    fun y hy => Validation.counts_ofRows hprimary hy⟩
  refine List.getElem?_zip_eq_some.mpr ⟨hsize, ?_⟩
  rw [List.getElem?_map, hrows]
  rfl

/-- The scripts show the structure that is selected. After the first script, in a frame in which the
player does not sneak, the layer stays where it is, the extents are those of the saved structure,
and the totals count the voxels of its primary layer that refer to a block, all of them and those in
the layer. -/
theorem frame_shows_structure {upgrader : Upgrader} {saved : List SavedStructure}
    (h : (make config upgrader saved).outcome.1 = .ok pack) (hconfig : config.Quotable)
    (hfits : config.Fits) (hlength : saved.length < 2 ^ 31)
    (hextents : ∀ s ∈ saved, ∀ n ∈ s.size.extents, n < 2 ^ 32)
    (hvoxels : ∀ s ∈ saved, s.size.volume < 2 ^ 31) {i y : Nat} {s : SavedStructure}
    (hs : saved[i]? = some s) (hy : y < s.size.height) (functions functions' : Functions)
    (store : Store) :
    ∃ primary others started later, pack.structures[i]? = some (primary :: others) ∧
      Program.executeText functions pack.scripts.setup.text store = (.ok none, started) ∧
      Program.executeText functions' pack.scripts.frame.text
          (((started.insert Variable.structureIndex.name (.number (Float.ofInt i))).insert
            Variable.layer.name (.number (Float.ofInt y))).insert "q.is_sneaking" (.number 0.0)) =
        (.ok none, later) ∧
      later.HasInt Variable.layer.name y ∧
      later.HasInt Variable.structureWidth.name s.size.width ∧
      later.HasInt Variable.structureHeight.name s.size.height ∧
      later.HasInt Variable.structureDepth.name s.size.depth ∧
      later.HasInt Variable.blocksToValidate.name (primary.liveCount pack.palette) ∧
      later.HasInt Variable.blocksToValidateInLayer.name
        (primary.liveCountAt s.size pack.palette y) := by
  have hparts := fits_of_make h
  have hmade := sizes_of_make h
  have hlength' : pack.sizes.length < 2 ^ 31 := by simpa [hmade] using hlength
  have hextents' : ∀ size ∈ pack.sizes, ∀ n ∈ size.extents, n < 2 ^ 32 := by
    simpa [hmade] using hextents
  have hvoxels' : ∀ size ∈ pack.sizes, size.volume < 2 ^ 31 := by
    simpa [hmade] using hvoxels
  have hsize : pack.sizes[i]? = some s.size := by simp [hmade, hs]
  generalize s.size = size at hsize hy ⊢
  have hwritable : EntityScripts.Writable pack.validated :=
    hparts.writable hlength' hextents' hvoxels'
  obtain ⟨first, rest, hsizes, hscripts⟩ := hparts.scripts_eq
  have hmem := List.mem_of_getElem? hsize
  have hvoxel : size.volume < 2 ^ 31 := hvoxels' size hmem
  obtain ⟨primary, others, validation, hlayers, hprimary, hentry, htotal, hcounts⟩ :=
    hparts.exists_validated hsize hvoxel
  have hfirst : ∀ n ∈ first.extents, n < 2 ^ 32 := hextents' first (hsizes ▸ .head _)
  obtain ⟨hwidth, hheight, hdepth⟩ :
      size.width < 2 ^ 32 ∧ size.height < 2 ^ 32 ∧ size.depth < 2 ^ 32 := by
    simpa [Size.extents] using hextents' size hmem
  have hi : i < 2 ^ 31 := Nat.lt_trans (List.getElem?_eq_some_iff.mp hs).1 hlength
  let started := store.setAll (EntityScripts.starts config pack.sizes.length first)
  obtain ⟨t, sneaks, -, hshown⟩ := Settings.exists_started hfits hlength' hfirst store
  have hindex := hshown.insert (Variable.structureIndex.shows_ofInt (n := i) (by omega))
  have hlayer := hindex.insert (Variable.layer.shows_ofInt (n := y) (by omega))
  have hselected := hlayer.sneak (.number 0.0)
  obtain ⟨later, hframe, hlater⟩ :=
    Settings.exists_frame_idle hconfig hfits hwritable rfl hentry rfl hy (hcounts y hy) hselected
      functions'
  have htotal_le : primary.liveCount pack.palette ≤ size.volume :=
    hprimary ▸ primary.liveCount_le pack.palette
  have hinLayer_le : primary.liveCountAt size pack.palette y ≤ size.volume :=
    hprimary ▸ primary.liveCountAt_le size pack.palette y
  refine ⟨primary, others, started, later, hlayers, ?_, ?_, ?_, ?_, ?_, ?_, ?_, ?_⟩
  · rw [hscripts]
    exact EntityScripts.executeText_setupCode hfits hlength' hfirst functions store
  · rw [hscripts]
    exact hframe
  · exact hlater.hasInt rfl (if_neg (by simp; omega)) (by omega)
  · exact hlater.hasInt rfl rfl (by omega)
  · exact hlater.hasInt rfl rfl (by omega)
  · exact hlater.hasInt rfl rfl (by omega)
  · exact hlater.hasTotal rfl (congrArg Nat.cast htotal) (by omega)
  · exact hlater.hasTotal rfl rfl (by omega)

/-- Of two structures the second has six voxels, of which four have a block, one of them above. -/
theorem frame_shows_structure_second :
    let saved (size : Size) (name : String) (layer : Layer) : SavedStructure := {
      size, palette := [⟨name, [], none, none⟩], layers := [layer] }
    let first := saved ⟨2, 1, 1⟩ "stone" #[0, 0]
    let second := saved ⟨3, 2, 1⟩ "dirt" #[0, -1, 0, -1, 0, 0]
    ∃ pack, (make .standard .keep [first, second]).outcome.1 = .ok pack ∧ ∃ started later,
      Program.executeText [] pack.scripts.setup.text [] = (.ok none, started) ∧
      Program.executeText [] pack.scripts.frame.text
          (((started.insert "v.hologram.structure_index" (.number (Float.ofInt 1))).insert
            "v.hologram.layer" (.number (Float.ofInt 1))).insert "q.is_sneaking" (.number 0.0)) =
        (.ok none, later) ∧
      later.HasInt "v.hologram.structure_w" 3 ∧
      later.HasInt "v.hologram.total_blocks_to_validate" 4 ∧
      later.HasInt "v.hologram.total_blocks_to_validate_layer" 1 := by
  intro saved first second
  have hok : ((make .standard .keep [first, second]).outcome.1.toOption.any fun pack =>
      decide ((pack.structures[1]?.bind List.head?).map (fun layer : Layer =>
          (layer.liveCount pack.palette, layer.liveCountAt ⟨3, 2, 1⟩ pack.palette 1)) =
        some (4, 1))) = true := by decide +kernel
  cases h : (make .standard .keep [first, second]).outcome.1 with
  | error e =>
    rw [h] at hok
    contradiction
  | ok pack =>
    rw [h] at hok
    have hcounts := of_decide_eq_true hok
    have hsaved : [first, second][1]? = some second := rfl
    obtain ⟨primary, others, started, later, hlayers, hsetup, hframe, -, hwidth, -, -, htotal,
        hinLayer⟩ := frame_shows_structure h Config.quotable_standard Config.fits_standard
      (by decide) (by simp [first, second, saved, Size.extents])
      (by simp [first, second, saved, Size.volume]) hsaved (show 1 < 2 by decide) [] [] []
    rw [hlayers] at hcounts
    obtain ⟨hlive, hliveAt⟩ := Prod.mk.inj (Option.some.inj hcounts)
    rw [hlive] at htotal
    rw [hliveAt] at hinLayer
    exact ⟨pack, rfl, started, later, hsetup, hframe, hwidth, htotal, hinLayer⟩

end Pack
end Hologram
