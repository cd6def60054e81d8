import Hologram.Proofs.Pack.Grid
import Hologram.Proofs.Pack.Skeleton
import Hologram.Proofs.Pack.Totals
import Hologram.Proofs.Pack.Validation

/-! The states of validation and what they mark. A structure has its states whether or not its
layers have blocks, but a layer has one only for the voxels that it marks, and every effect in a
state marks a voxel of its own. -/
namespace Hologram

open Script

namespace Validation

variable {space : String} {structures : List (Size × Validation)} {i : Nat} {size : Size}
  {v : Validation}

theorem nodup_choices (i height : Nat) (v : Validation) : (choices i height v).Nodup := by
  rw [choices, List.nodup_cons, layers_eq]
  refine ⟨by simp, (List.nodup_range.filter _).map fun y z h => ?_⟩
  exact (Shown.layer.inj h).2

/-- The controller of validation has no two states of one name. -/
theorem distinct_states (space : String) (structures : List (Size × Validation)) :
    (controller space structures).states.Distinct := by
  have hnames : (controller space structures).states.map Prod.fst =
      (Shown.nothing :: structures.zipIdx.flatMap fun entry =>
        choices entry.2 entry.1.1.height entry.1.2).map Shown.state := by
    simp only [controller, List.map_cons, List.map_flatMap, map_fst_states]
    rfl
  rw [Dictionary.Distinct, hnames]
  refine List.Nodup.map (fun _ _ => Shown.state_injective) (List.nodup_cons.mpr ⟨?_, ?_⟩)
  · simp [mem_choices]
  · refine List.nodup_flatMap.mpr ⟨fun entry _ => nodup_choices .., ?_⟩
    exact (pairwise_zipIdx structures).imp fun hne s hs hs' =>
      hne (index_eq_of_mem_choices hs hs')

/-- Any other state than the first one is one of some structure. -/
theorem state?_eq_some_iff {name : String} {state : ControllerState} (hname : name ≠ idle) :
    (controller space structures).state? name = some state ↔
      ∃ i size v, structures[i]? = some (size, v) ∧
        (name, state) ∈ states space i size.height v := by
  rw [Controller.state?, (distinct_states space structures).get?_eq_some_iff, controller,
    List.mem_cons, or_iff_right fun h => hname (Prod.mk.inj h).1]
  simp only [List.mem_flatMap, mem_numbered, Prod.exists]
  constructor
  · rintro ⟨size, v, i, h, hmem⟩
    exact ⟨i, size, v, h, hmem⟩
  · rintro ⟨i, size, v, h, hmem⟩
    exact ⟨size, v, i, h, hmem⟩

/-- There are the first state and the states of what can be shown of each structure. -/
theorem exists_state?_iff {name : String} :
    (∃ state, (controller space structures).state? name = some state) ↔
      name = idle ∨ ∃ i size v, structures[i]? = some (size, v) ∧
        ∃ s ∈ choices i size.height v, s.state = name := by
  by_cases hname : name = idle
  · subst hname
    obtain ⟨state, hstate, -⟩ := state?_idle space structures
    exact iff_of_true ⟨state, hstate⟩ (.inl rfl)
  · rw [or_iff_right hname]
    constructor
    · rintro ⟨state, hstate⟩
      obtain ⟨i, size, v, h, hmem⟩ := (state?_eq_some_iff hname).mp hstate
      exact ⟨i, size, v, h, (transitions_of_mem_states hmem).1⟩
    · rintro ⟨i, size, v, h, s, hs, rfl⟩
      obtain ⟨state, hstate, -⟩ := exists_state? space h hs
      exact ⟨state, hstate⟩

/-- A structure has the state of a layer when the layer has blocks to validate. -/
theorem exists_layerState?_iff (h : structures[i]? = some (size, v)) {y : Nat} :
    (∃ state, (controller space structures).state? (layerState i y) = some state) ↔
      y < size.height ∧ v.isFilled y = true := by
  have hname : layerState i y = (Shown.layer i y).state := rfl
  rw [hname, exists_state?_iff]
  constructor
  · rintro (hidle | ⟨j, size', v', hj, s, hs, hstate⟩)
    · cases Shown.eq_nothing_of_state_eq hidle
    · obtain rfl := Shown.state_injective hstate
      rcases mem_choices.mp hs with hwhole | ⟨y', hy', heq⟩
      · cases hwhole
      · cases heq
        rw [h] at hj
        cases hj
        exact hy'
  · intro hy
    exact .inr ⟨i, size, v, h, _, mem_choices.mpr (.inr ⟨y, hy, rfl⟩), rfl⟩

/-- The effects in the state of what is shown: none, those of all blocks, or those of the blocks at
one height. -/
def effectsOf (space : String) (v : Validation) : Shown → List ParticleEffect
  | .nothing => []
  | .whole _ => v.blocks.map (effect space)
  | .layer _ y => (v.blocks.filter (·.position.y == Position.coordinate y)).map (effect space)

theorem effects_of_mem_states {name : String} {state : ControllerState} {height : Nat}
    (h : (name, state) ∈ states space i height v) :
    ∃ s ∈ choices i height v, s.state = name ∧ state.effects = effectsOf space v s := by
  simp only [states, List.mem_cons, List.mem_map, Prod.mk.injEq] at h
  rcases h with ⟨rfl, rfl⟩ | ⟨y, hy, rfl, rfl⟩
  · exact ⟨.whole i, List.mem_cons_self, rfl, rfl⟩
  · exact ⟨.layer i y, List.mem_cons_of_mem _ (List.mem_map_of_mem hy), rfl, rfl⟩

/-- A state shows the effects of what it is the state of. -/
theorem effects_of_state? (h : structures[i]? = some (size, v)) {s : Shown}
    (hs : s ∈ choices i size.height v) {state : ControllerState}
    (hstate : (controller space structures).state? s.state = some state) :
    state.effects = effectsOf space v s := by
  obtain ⟨j, size', v', hj, hmem⟩ := (state?_eq_some_iff (state_ne_idle hs)).mp hstate
  obtain ⟨s', hs', hsame, heffects⟩ := effects_of_mem_states hmem
  obtain rfl := Shown.state_injective hsame
  obtain rfl := index_eq_of_mem_choices hs hs'
  rw [h] at hj
  cases hj
  exact heffects

/-- The script of an effect comes to its end, and it sets three variables to the coordinates of its
block. -/
theorem executeText_effect (space : String) {b : ValidatedBlock} (hx : b.position.x.natAbs ≤ 2 ^ 53)
    (hy : b.position.y.natAbs ≤ 2 ^ 53) (hz : b.position.z.natAbs ≤ 2 ^ 53) (functions : Functions)
    (store : Store) : Program.executeText functions (effect space b).script store =
      (.ok none, ((store.insert "v.x" (.number (Float.ofInt b.position.x))).insert "v.y"
        (.number (Float.ofInt b.position.y))).insert "v.z"
        (.number (Float.ofInt b.position.z))) := by
  have hreads {n : Int} (hn : n.natAbs ≤ 2 ^ 53) : (Expression.int n).ReadsBack :=
    (EntityScripts.faithful_int hn).readsBack
  have hread : Code.Readable [
      .assign (.name "v.x") (.int b.position.x),
      .assign (.name "v.y") (.int b.position.y),
      .assign (.name "v.z") (.int b.position.z)] :=
    ⟨⟨⟨_, rfl, by decide⟩, hreads hx⟩, ⟨⟨_, rfl, by decide⟩, hreads hy⟩,
      ⟨⟨_, rfl, by decide⟩, hreads hz⟩, trivial⟩
  have hint (n : Int) (store : Store) : (Expression.int n).settled.evaluate functions store =
      .ok (.number (Float.ofInt n)) := rfl
  exact ((Code.leaves_assign (hint _ _)).cons ((Code.leaves_assign (hint _ _)).cons
    (Code.leaves_assign (hint _ _)))).executeText hread

variable {palette : Palette} {layers : List Layer}

/-- A layer has blocks to validate when a voxel of the primary layer at its height has one. -/
theorem isFilled_ofRows_iff {y : Nat} :
    (y < size.height ∧ (ofRows (Placement.rows size palette layers)).isFilled y = true) ↔
      ∃ v ∈ Placement.voxels size palette layers, v.layer = 0 ∧ v.y = y := by
  have hcount (hy : y < size.height) : (ofRows (Placement.rows size palette layers)).counts[y]? =
      some ((Placement.voxels size palette layers).countP fun v => v.layer == 0 && v.y == y) := by
    simp [Placement.counts_eq, hy]
  constructor
  · rintro ⟨hy, hfilled⟩
    rw [isFilled_iff, hcount hy, Option.getD_some, List.countP_pos_iff] at hfilled
    simpa using hfilled
  · rintro ⟨v, hv, hlayer, rfl⟩
    obtain ⟨slot, hslot⟩ := Option.isSome_iff_exists.mp (Placement.mem_voxels.mp hv)
    obtain ⟨⟨-, hy, -⟩, -⟩ := Placement.slotAt?_eq_some_iff.mp hslot
    refine ⟨hy, ?_⟩
    rw [isFilled_iff, hcount hy, Option.getD_some, List.countP_pos_iff]
    exact ⟨v, hv, by simp [hlayer]⟩

end Validation

namespace Pack

/-- A voxel of the primary layer of a structure that holds a block. -/
def IsPrimary (pack : Pack) (i : Nat) (v : Voxel) : Prop :=
  v.layer = 0 ∧ (pack.slotAt? i v.x v.y v.z 0).isSome = true

/-- An effect marks a voxel of a structure: it shows the particle of the block there at the place of
the voxel, after a script that sets three variables to the coordinates and leaves the others
alone. -/
structure Marks (pack : Pack) (space : String) (i : Nat) (e : ParticleEffect) (v : Voxel) :
    Prop where
  place : e.locator = v.locator
  particle : ∃ slot block, pack.slotAt? i v.x v.y v.z v.layer = some slot ∧
    pack.palette.block? slot = some block ∧
    e.effect = Validation.particleName space (Validation.particleShortName block.name)
  script : ∀ functions store, ∃ later,
    Program.executeText functions e.script store = (.ok none, later) ∧
      later.HasInt "v.x" v.x ∧ later.HasInt "v.y" v.y ∧ later.HasInt "v.z" v.z ∧
      ∀ x ∉ ["v.x", "v.y", "v.z"],
        Expression.variableValue later x = Expression.variableValue store x

/-- Effects mark the voxels of a structure with a property, each of them once. -/
def MarksEach (pack : Pack) (space : String) (i : Nat) (effects : List ParticleEffect)
    (p : Voxel → Prop) : Prop :=
  ∃ voxels, Enumerates voxels p ∧ List.Forall₂ (pack.Marks space i) effects voxels

/-- How a controller validates the structures of a pack: each has a state that marks its blocks in
the primary layer, and for each height at which there are such blocks a state that marks them. The
only other state marks nothing. -/
structure Validates (pack : Pack) (space : String) (count : Nat) (c : Controller) : Prop where
  distinct : c.states.Distinct
  idle : ∃ state, c.state? Validation.idle = some state ∧ state.effects = []
  whole : ∀ i < count, ∃ state, c.state? (Validation.wholeState i) = some state ∧
    pack.MarksEach space i state.effects (pack.IsPrimary i)
  layers : ∀ i < count, ∀ y, (∃ state, c.state? (Validation.layerState i y) = some state) ↔
    ∃ v, pack.IsPrimary i v ∧ v.y = y
  layer : ∀ i < count, ∀ y state, c.state? (Validation.layerState i y) = some state →
    pack.MarksEach space i state.effects fun v => pack.IsPrimary i v ∧ v.y = y
  others : ∀ name state, c.state? name = some state → name = Validation.idle ∨
    ∃ i < count, name = Validation.wholeState i ∨ ∃ y, name = Validation.layerState i y

variable {config : Config} {upgrader : Upgrader} {pack : Pack} {i : Nat}

/-- A structure of a pack is validated by its voxels. -/
theorem Fits.exists_grid (h : pack.Fits config) (hi : i < pack.sizes.length) : ∃ size layers,
    pack.sizes[i]? = some size ∧
    pack.validated[i]? =
      some (size, Validation.ofRows (Placement.rows size pack.palette layers)) ∧
    ∀ x y z number, pack.slotAt? i x y z number =
      Placement.slotAt? size pack.palette layers x y z number := by
  have hsize := List.getElem?_eq_getElem hi
  obtain ⟨first, others, hlayers, -, hrows⟩ := h.exists_layers hsize
  refine ⟨_, first :: others, hsize, List.getElem?_zip_eq_some.mpr ⟨hsize, ?_⟩, fun x y z n => ?_⟩
  · rw [List.getElem?_map, hrows]
    rfl
  · simp [slotAt?, hsize, hlayers]

section

variable {size : Size} {layers : List Layer} (space : String)
  (hslots : ∀ x y z number, pack.slotAt? i x y z number =
    Placement.slotAt? size pack.palette layers x y z number)
  (hextents : ∀ n ∈ size.extents, n < 2 ^ 31)

include hslots

theorem isPrimary_iff {v : Voxel} : (v.slot? size pack.palette layers).isSome = true ∧
    (v.layer == 0) = true ↔ pack.IsPrimary i v := by
  rw [IsPrimary, hslots, Voxel.slot?, beq_iff_eq, and_comm]
  refine and_congr_right fun hlayer => ?_
  rw [hlayer]

include hextents

/-- Below half the width of an integer of a script the effect of a block marks its voxel. -/
theorem marks_effect {b : ValidatedBlock} {v : Voxel} (hplace : b.locator = v.locator)
    (hposition : b.position = Position.ofVoxel v.x v.y v.z)
    (hblock : ∃ slot block, v.slot? size pack.palette layers = some slot ∧
      pack.palette.block? slot = some block ∧ b.block = block.name) :
    b.position = ⟨v.x, v.y, v.z⟩ ∧ pack.Marks space i (Validation.effect space b) v := by
  obtain ⟨slot, block, hslot, hblock, hname⟩ := hblock
  obtain ⟨⟨hx, hy, hz⟩, -⟩ := Placement.slotAt?_eq_some_iff.mp hslot
  have hhalf : Number.Width.bits32.half = 2 ^ 31 := by decide
  obtain ⟨hwidth, hheight, hdepth⟩ :
      size.width < 2 ^ 31 ∧ size.height < 2 ^ 31 ∧ size.depth < 2 ^ 31 := by
    simpa [Size.extents] using hextents
  rw [Position.ofVoxel_of_lt (by omega) (by omega) (by omega)] at hposition
  refine ⟨hposition, hplace, ⟨slot, block, (hslots ..).trans hslot, hblock, ?_⟩,
    fun functions store => ?_⟩
  · rw [← hname]
    rfl
  · have hrun := Validation.executeText_effect space (b := b) (by simp only [hposition]; omega)
      (by simp only [hposition]; omega) (by simp only [hposition]; omega) functions store
    rw [hposition] at hrun
    have hasInt {later : Store} {x : String} {n : Nat} (hn : n < 2 ^ 31)
        (hvalue : Expression.variableValue later x = .number (Float.ofInt n)) :
        later.HasInt x n :=
      Store.Counts.hasInt ⟨_, hvalue, Number.isInt_ofInt (by omega)⟩ (by omega)
    refine ⟨_, hrun, hasInt (by omega) ?_, hasInt (by omega) ?_, hasInt (by omega) ?_,
      fun x hx => ?_⟩
    · simp [variableValue_insert]
    · simp [variableValue_insert]
    · simp [variableValue_insert]
    · simp only [List.mem_cons, List.not_mem_nil, or_false, not_or] at hx
      simp [variableValue_insert, Ne.symm hx.1, Ne.symm hx.2.1, Ne.symm hx.2.2]

theorem forall₂_marks : List.Forall₂ (fun b v => b.position = ⟨v.x, v.y, v.z⟩ ∧
      pack.Marks space i (Validation.effect space b) v)
    (Validation.ofRows (Placement.rows size pack.palette layers)).blocks
    ((Placement.voxels size pack.palette layers).filter (·.layer == 0)) :=
  Placement.forall₂_blocks.imp fun _ _ hb => marks_effect space hslots hextents hb.1 hb.2.1 hb.2.2

/-- The effects for all blocks of a structure mark its voxels in the primary layer. -/
theorem marksEach_whole : pack.MarksEach space i
    (Validation.effectsOf space (Validation.ofRows (Placement.rows size pack.palette layers))
      (.whole i)) (pack.IsPrimary i) := by
  refine ⟨_, (Placement.enumerates_voxels.filter (·.layer == 0)).congr fun v =>
    isPrimary_iff hslots, ?_⟩
  rw [Validation.effectsOf, List.forall₂_map_left_iff]
  exact (forall₂_marks space hslots hextents).imp fun _ _ h => h.2

/-- The effects for the blocks at one height mark the voxels there. -/
theorem marksEach_layer {y : Nat} (hy : y < size.height) : pack.MarksEach space i
    (Validation.effectsOf space (Validation.ofRows (Placement.rows size pack.palette layers))
      (.layer i y)) fun v => pack.IsPrimary i v ∧ v.y = y := by
  have hheight : size.height < 2 ^ 31 := hextents _ (.tail _ (.head _))
  have hhalf : Number.Width.bits32.half = 2 ^ 31 := by decide
  refine ⟨_, ((Placement.enumerates_voxels.filter (·.layer == 0)).filter (·.y == y)).congr
    fun v => and_congr (isPrimary_iff hslots) beq_iff_eq, ?_⟩
  rw [Validation.effectsOf, List.forall₂_map_left_iff]
  refine (List.rel_filter (fun b v h => ?_) (forall₂_marks space hslots hextents)).imp
    fun _ _ h => h.2
  simp only [h.1, beq_iff_eq, Position.coordinate_of_lt (show y < _ by omega)]
  omega

end

/-- The controller of validation for the structures of a pack validates them. -/
theorem Fits.validates (h : pack.Fits config)
    (hextents : ∀ size ∈ pack.sizes, ∀ n ∈ size.extents, n < 2 ^ 31) (space : String) :
    pack.Validates space pack.sizes.length (Validation.controller space pack.validated) where
  distinct := Validation.distinct_states space pack.validated
  idle := by
    rw [Controller.state?, Validation.controller, Dictionary.get?_cons, if_pos rfl]
    exact ⟨_, rfl, rfl⟩
  whole i hi := by
    obtain ⟨size, layers, hsize, hvalidated, hslots⟩ := h.exists_grid hi
    have hmem := List.mem_of_getElem? hsize
    have hchoice : Validation.Shown.whole i ∈ Validation.choices i size.height
        (Validation.ofRows (Placement.rows size pack.palette layers)) := List.mem_cons_self
    obtain ⟨state, hstate, -⟩ := Validation.exists_state? space hvalidated hchoice
    refine ⟨state, hstate, ?_⟩
    rw [Validation.effects_of_state? hvalidated hchoice hstate]
    exact marksEach_whole space hslots (hextents size hmem)
  layers i hi y := by
    obtain ⟨size, layers, hsize, hvalidated, hslots⟩ := h.exists_grid hi
    rw [Validation.exists_layerState?_iff hvalidated, Validation.isFilled_ofRows_iff]
    refine exists_congr fun v => ?_
    rw [← and_assoc, ← isPrimary_iff hslots, Placement.mem_voxels, beq_iff_eq]
  layer i hi y state hstate := by
    obtain ⟨size, layers, hsize, hvalidated, hslots⟩ := h.exists_grid hi
    have hmem := List.mem_of_getElem? hsize
    have hfilled := (Validation.exists_layerState?_iff hvalidated).mp ⟨state, hstate⟩
    have hchoice : Validation.Shown.layer i y ∈ Validation.choices i size.height
        (Validation.ofRows (Placement.rows size pack.palette layers)) :=
      Validation.mem_choices.mpr (.inr ⟨y, hfilled, rfl⟩)
    rw [Validation.effects_of_state? hvalidated hchoice hstate]
    exact marksEach_layer space hslots (hextents size hmem) hfilled.1
  others name state hstate := by
    rcases Validation.exists_state?_iff.mp ⟨state, hstate⟩ with
      hidle | ⟨i, size, v, hvalidated, s, hs, rfl⟩
    · exact .inl hidle
    · obtain ⟨hi, -⟩ := List.getElem?_eq_some_iff.mp (List.getElem?_zip_eq_some.mp hvalidated).1
      rcases Validation.mem_choices.mp hs with rfl | ⟨y, -, rfl⟩
      · exact .inr ⟨i, hi, .inl rfl⟩
      · exact .inr ⟨i, hi, .inr ⟨y, rfl⟩⟩

/-- The controller of validation of a pack matches the voxels of its structures. -/
theorem validates_of_make {saved : List SavedStructure}
    (h : (make config upgrader saved).outcome.1 = .ok pack)
    (hextents : ∀ s ∈ saved, ∀ n ∈ s.size.extents, n < 2 ^ 31) :
    ∃ c, pack.controllers.get? validationController = some c ∧
      pack.Validates config.validationParticleNamespace saved.length c := by
  obtain ⟨_, -, -, -, -, -, -, -, -, hcontrollers⟩ := exists_clean_of_make h
  have hsizes := sizes_of_make h
  have hlength : pack.sizes.length = saved.length := by simp [hsizes]
  refine ⟨_, ?_, hlength ▸ (fits_of_make h).validates ?_ config.validationParticleNamespace⟩
  · rw [hcontrollers, controllersOf, Dictionary.get?_cons, if_pos rfl, validated]
  · simpa [hsizes] using hextents

/-- A structure with a gap between its blocks, and one that has a block in its second layer only. -/
theorem validates_of_make_gap :
    let saved : List SavedStructure := [
      { size := ⟨2, 3, 1⟩
        palette := [⟨"minecraft:stone", [], none, none⟩, ⟨"minecraft:air", [], none, none⟩]
        layers := [#[0, 1, 0, -1, -1, 0]] },
      { size := ⟨1, 1, 1⟩, palette := [⟨"dirt", [], none, none⟩], layers := [#[-1], #[0]] }]
    (∀ s ∈ saved, ∀ n ∈ s.size.extents, n < 2 ^ 31) ∧
      ∃ pack, (make .standard .keep saved).outcome.1 = .ok pack ∧
        ∃ c, pack.controllers.get? validationController = some c ∧
          pack.Validates Config.standard.validationParticleNamespace 2 c := by
  intro saved
  have hok : (make .standard .keep saved).outcome.1.toOption.isSome = true := by decide +kernel
  have hextents : ∀ s ∈ saved, ∀ n ∈ s.size.extents, n < 2 ^ 31 := by
    simp [saved, Size.extents]
  refine ⟨hextents, ?_⟩
  cases h : (make .standard .keep saved).outcome.1 with
  | error e =>
    rw [h] at hok
    contradiction
  | ok pack => exact ⟨pack, rfl, validates_of_make h hextents⟩

end Pack
end Hologram
