import Hologram.Proofs.Pack.Cycle
import Hologram.Proofs.Pack.Skeleton
import Hologram.Proofs.Pack.Validation
import Hologram.Proofs.Structure.Usage

/-! Names across the parts of a pack. Bones, states and places are built by name in one part and
referred to by name in another, and every name that is referred to is there. -/
namespace Hologram

namespace Palette

/-- Every live slot is listed once. -/
theorem nodup_map_fst_live (p : Palette) : (p.live.map Prod.fst).Nodup :=
  (ascending_live p).imp Nat.ne_of_lt

end Palette

theorem templateBone_inj {m n : Nat} (h : templateBone m = templateBone n) : m = n :=
  Number.numbered_inj h

theorem mem_templateBones {palette : Palette} {bone : Bone} : bone ∈ templateBones palette ↔
    ∃ slot : Nat, palette.isLive slot = true ∧ bone = Bone.template slot := by
  simp only [templateBones, List.mem_map, Prod.exists, Palette.mem_live, Palette.isLive,
    Palette.get?_natCast, Option.isSome_iff_exists]
  constructor
  · rintro ⟨slot, block, hblock, rfl⟩
    exact ⟨slot, ⟨block, hblock⟩, rfl⟩
  · rintro ⟨slot, ⟨block, hblock⟩, rfl⟩
    exact ⟨slot, block, hblock, rfl⟩

theorem nodup_templateBones (palette : Palette) :
    ((templateBones palette).map Bone.name).Nodup := by
  have hnames : (templateBones palette).map Bone.name =
      (palette.live.map Prod.fst).map templateBone := by
    simp only [templateBones, List.map_map]
    rfl
  rw [hnames]
  exact (Palette.nodup_map_fst_live palette).map fun _ _ => templateBone_inj

namespace Skeleton

variable {s : Skeleton} {added : List Bone}

/-- A skeleton has no two bones of one name. -/
theorem Collects.nodup (h : s.Collects added) : (s.bones.toList.map Bone.name).Nodup := by
  rw [List.nodup_iff_count_le_one]
  intro name
  have hcount : (s.bones.toList.map Bone.name).count name =
      (s.bones.toList.filter (·.name == name)).length := by
    rw [List.count, List.countP_map, List.countP_eq_length_filter]
    rfl
  rw [hcount, (h name).2]
  cases added.find? (·.name == name) <;> simp

/-- The bones of a skeleton are among those that were added. -/
theorem Collects.mem (h : s.Collects added) {bone : Bone} (hbone : bone ∈ s.bones.toList) :
    bone ∈ added := by
  have hown : bone ∈ s.bones.toList.filter (·.name == bone.name) :=
    List.mem_filter.mpr ⟨hbone, beq_self_eq_true _⟩
  rw [(h bone.name).2, Option.mem_toList] at hown
  exact List.mem_of_find?_eq_some hown

/-- Every bone that was added has its name in the skeleton. -/
theorem Collects.mem_names (h : s.Collects added) {bone : Bone} (hbone : bone ∈ added) :
    bone.name ∈ s.bones.toList.map Bone.name := by
  cases hfind : added.find? (·.name == bone.name) with
  | none => exact absurd (beq_self_eq_true _) (List.find?_eq_none.mp hfind bone hbone)
  | some first =>
    have hfirst : first ∈ s.bones.toList.filter (·.name == bone.name) := by
      rw [(h bone.name).2, hfind]
      exact List.mem_singleton_self first
    obtain ⟨hmem, hname⟩ := List.mem_filter.mp hfirst
    exact List.mem_map.mpr ⟨first, hmem, beq_iff_eq.mp hname⟩

end Skeleton

namespace Controller

/-- A controller has the state that it starts in, and the states that its transitions lead to. -/
structure Closed (c : Controller) : Prop where
  initial : ∃ state, c.state? c.initial = some state
  targets : ∀ entry ∈ c.states, ∀ t ∈ entry.2.transitions, ∃ state, c.state? t.target = some state

end Controller

/-- The controller of validation leads only to its own states. -/
theorem Validation.closed_controller (space : String) (structures : List (Size × Validation)) :
    (Validation.controller space structures).Closed := by
  have hidle : ∃ state, (controller space structures).state? idle = some state := by
    obtain ⟨state, hstate, -⟩ := state?_idle space structures
    exact ⟨state, hstate⟩
  have hentrance : ∀ {i : Nat} {size : Size} {v : Validation} {t : Transition},
      structures[i]? = some (size, v) → t ∈ entrances i size.height v →
        ∃ state, (controller space structures).state? t.target = some state := by
    intro i size v t hi ht
    rw [entrances_eq] at ht
    obtain ⟨s, hs, rfl⟩ := List.mem_map.mp ht
    obtain ⟨state, hstate, -⟩ := exists_state? space hi hs
    exact ⟨state, hstate⟩
  refine ⟨hidle, fun entry hentry t ht => ?_⟩
  rcases List.mem_cons.mp hentry with rfl | hentry
  · obtain ⟨⟨⟨size, v⟩, i⟩, hi, ht⟩ := List.mem_flatMap.mp ht
    exact hentrance (mem_numbered.mp hi) ht
  · obtain ⟨⟨⟨size, v⟩, i⟩, hi, hentry⟩ := List.mem_flatMap.mp hentry
    rw [(transitions_of_mem_states hentry).2, List.mem_cons] at ht
    rcases ht with rfl | ht
    · exact hidle
    · exact hentrance (mem_numbered.mp hi) (List.mem_filter.mp ht).1

/-- The controller of the bounding box leads only to its own states. -/
theorem BoundingBox.closed_controller (sizes : List Size) :
    (BoundingBox.controller sizes).Closed := by
  have hstate : ∀ {name : String}, name ∈ (controller sizes).states.map Prod.fst →
      ∃ state, (controller sizes).state? name = some state := by
    intro name hname
    obtain ⟨state, hstate, -⟩ := Dictionary.exists_get?_of_mem hname
    exact ⟨state, hstate⟩
  have hhidden : hidden ∈ (controller sizes).states.map Prod.fst := List.mem_cons_self
  refine ⟨hstate hhidden, fun entry hentry t ht => hstate ?_⟩
  rcases List.mem_cons.mp hentry with rfl | hentry
  · obtain ⟨numbered, hnumbered, rfl⟩ := List.mem_map.mp ht
    refine List.mem_cons_of_mem _ (List.mem_map.mpr ⟨_, List.mem_map_of_mem hnumbered, rfl⟩)
  · obtain ⟨numbered, -, rfl⟩ := List.mem_map.mp hentry
    rw [List.mem_singleton.mp ht]
    exact hhidden

/-- The controller that selects a structure leads only to its own states. -/
theorem Selection.closed_controller (count : Nat) : (Selection.controller count).Closed := by
  rcases Nat.eq_zero_or_pos count with rfl | hcount
  · refine ⟨⟨{}, rfl⟩, fun entry hentry t ht => ?_⟩
    rw [List.mem_singleton.mp hentry] at ht
    contradiction
  have hstate : ∀ index < count, ∃ s, (controller count).state? (state index) = some s :=
    fun index hindex => ⟨_, state?_state hindex⟩
  refine ⟨hstate 0 hcount, fun entry hentry t ht => ?_⟩
  rw [states_controller hcount] at hentry
  obtain ⟨index, -, rfl⟩ := List.mem_map.mp hentry
  dsimp only [stateOf] at ht
  split_ifs at ht
  · rw [List.mem_singleton.mp ht]
    exact hstate _ (Nat.mod_lt _ hcount)
  · contradiction

/-- The effects of the controller of validation mark blocks of its structures. -/
theorem Validation.exists_block_of_effect {space : String}
    {structures : List (Size × Validation)} {entry : String × ControllerState}
    (hentry : entry ∈ (controller space structures).states) {e : ParticleEffect}
    (he : e ∈ entry.2.effects) :
    ∃ structure_ ∈ structures, ∃ b ∈ structure_.2.blocks, e.locator = b.locator := by
  rcases List.mem_cons.mp hentry with rfl | hentry
  · contradiction
  obtain ⟨⟨entry, i⟩, hi, hentry⟩ := List.mem_flatMap.mp hentry
  refine ⟨entry, List.mem_of_getElem? (mem_numbered.mp hi), ?_⟩
  simp only [states, List.mem_cons, List.mem_map] at hentry
  rcases hentry with rfl | ⟨y, -, rfl⟩
  · obtain ⟨b, hb, rfl⟩ := List.mem_map.mp he
    exact ⟨b, hb, rfl⟩
  · obtain ⟨b, hb, rfl⟩ := List.mem_map.mp he
    exact ⟨b, (List.mem_filter.mp hb).1, rfl⟩

theorem Pack.mem_locatorsOf {validations : List Validation} {v : Validation}
    (hv : v ∈ validations) {b : ValidatedBlock} (hb : b ∈ v.blocks) :
    b.locator ∈ (locatorsOf validations).map Prod.fst := by
  rw [locatorsOf, Dictionary.mem_map_fst_collected]
  refine List.mem_map.mpr ⟨(b.locator, locatorOf b), List.mem_flatMap.mpr ⟨v, hv, ?_⟩, rfl⟩
  exact List.mem_map_of_mem hb

namespace Pack

variable {config : Config} {upgrader : Upgrader}

/-- No name in a pack leads nowhere: bones have names of their own, animations move bones that are
there and voxels repeat template bones of live slots, controllers stay among their states, and
validation marks its blocks at places that are known. -/
structure Closed (pack : Pack) : Prop where
  distinct : (pack.bones.map Bone.name).Nodup
  animated : ∀ animation ∈ pack.animations, ∀ entry ∈ animation.bones,
    entry.1 ∈ pack.bones.map Bone.name
  templates : ∀ bone ∈ pack.bones, ∀ x y z layer, bone.name = voxelBone x y z layer →
    ∃ slot : Nat, bone.parent = templateBone slot ∧ Bone.template slot ∈ pack.bones ∧
      pack.palette.isLive slot = true
  others : ∀ bone ∈ pack.bones, (∀ x y z layer, bone.name ≠ voxelBone x y z layer) →
    ∃ slot : Nat, bone = Bone.template slot ∧ pack.palette.isLive slot = true
  controllers : pack.controllers.map Prod.fst =
    [validationController, boundingBoxController, selectionController]
  states : ∀ entry ∈ pack.controllers, entry.2.Closed
  places : ∀ c, pack.controllers.get? validationController = some c → ∀ entry ∈ c.states,
    ∀ e ∈ entry.2.effects, ∃ place, pack.locators.get? e.locator = some place

/-- A bone of a pack hangs as a template of a live slot, or it is that of a voxel. -/
theorem bone_cases {pack : Pack} (h : pack.Fits config) {bone : Bone} (hbone : bone ∈ pack.bones) :
    (∃ slot : Nat, bone = Bone.template slot ∧ pack.palette.isLive slot = true) ∨
      ∃ rows ∈ pack.rows, ∃ p ∈ rows.flatten, bone = p.bone := by
  rw [h.bones, List.mem_append, mem_templateBones] at hbone
  refine hbone.imp (fun ⟨slot, hlive, heq⟩ => ⟨slot, heq, hlive⟩) fun hbone => ?_
  obtain ⟨rows, hrows, hbone⟩ :=
    List.mem_flatMap.mp ((Skeleton.collects_ofRows pack.rows).mem hbone)
  obtain ⟨p, hp, rfl⟩ := List.mem_map.mp hbone
  exact ⟨rows, hrows, p, hp, rfl⟩

/-- The slot of a block of a pack is live. -/
theorem isLive_slot {pack : Pack} {rows : List (List Placement)} (hrows : rows ∈ pack.rows)
    {p : Placement} (hp : p ∈ rows.flatten) : pack.palette.isLive p.slot = true := by
  obtain ⟨index, hindex⟩ := List.mem_iff_getElem?.mp hrows
  rw [Pack.rows, List.getElem?_zipWith_eq_some] at hindex
  obtain ⟨size, layers, -, -, rfl⟩ := hindex
  rw [Palette.isLive, Palette.get?_natCast, Placement.block?_slot hp]
  rfl

theorem nodup_bones {pack : Pack} (h : pack.Fits config) : (pack.bones.map Bone.name).Nodup := by
  have hcollects := Skeleton.collects_ofRows pack.rows
  rw [h.bones, List.map_append, List.nodup_append]
  refine ⟨nodup_templateBones _, hcollects.nodup, fun name hname other hother => ?_⟩
  obtain ⟨template, htemplate, rfl⟩ := List.mem_map.mp hname
  obtain ⟨slot, -, rfl⟩ := mem_templateBones.mp htemplate
  obtain ⟨bone, hbone, rfl⟩ := List.mem_map.mp hother
  obtain ⟨rows, -, hbone⟩ := List.mem_flatMap.mp (hcollects.mem hbone)
  obtain ⟨p, -, rfl⟩ := List.mem_map.mp hbone
  exact templateBone_ne_voxelBone slot p.x p.y p.z p.layer

/-- An animation of a pack moves bones of its structure, which the skeleton has. -/
theorem mem_bones_of_animated {pack : Pack} (h : pack.Fits config) {animation : Animation}
    (hanimation : animation ∈ pack.animations) {entry : String × BoneMotion}
    (hentry : entry ∈ animation.bones) : entry.1 ∈ pack.bones.map Bone.name := by
  rw [h.animations] at hanimation
  obtain ⟨⟨rows, index⟩, hrows, rfl⟩ := List.mem_map.mp hanimation
  obtain ⟨⟨row, y⟩, hrow, hentry⟩ := List.mem_flatMap.mp hentry
  obtain ⟨p, hp, rfl⟩ := List.mem_map.mp hentry
  have hadded : p.bone ∈ pack.rows.flatMap fun rows => rows.flatten.map Placement.bone := by
    refine List.mem_flatMap.mpr ⟨rows, ?_, List.mem_map_of_mem (List.mem_flatten.mpr ⟨row, ?_, hp⟩)⟩
    · exact List.mem_of_getElem? (List.mk_mem_zipIdx_iff_getElem?.mp hrows)
    · exact List.mem_of_getElem? (List.mk_mem_zipIdx_iff_getElem?.mp hrow)
  have hname := (Skeleton.collects_ofRows pack.rows).mem_names hadded
  rw [h.bones, List.map_append]
  exact List.mem_append_right _ hname

/-- Every name in a generated pack leads to what it names. -/
theorem closed_of_make {saved : List SavedStructure} {pack : Pack}
    (h : (make config upgrader saved).outcome.1 = .ok pack) : pack.Closed := by
  have hfits := fits_of_make h
  obtain ⟨_, -, -, -, -, -, -, -, hlocators, hcontrollers⟩ := exists_clean_of_make h
  have hvoxel : ∀ p : Placement, p.bone.name = voxelBone p.x p.y p.z p.layer := fun _ => rfl
  refine {
    distinct := nodup_bones hfits
    animated := fun _ hanimation _ hentry => mem_bones_of_animated hfits hanimation hentry
    templates := fun bone hbone x y z layer hname => ?_
    others := fun bone hbone hname => ?_
    controllers := hcontrollers ▸ rfl
    states := fun entry hentry => ?_
    places := fun c hc entry hentry e he => ?_ }
  · rcases bone_cases hfits hbone with ⟨slot, rfl, -⟩ | ⟨rows, hrows, p, hp, rfl⟩
    · exact absurd hname (templateBone_ne_voxelBone slot x y z layer)
    · have hlive := isLive_slot hrows hp
      refine ⟨p.slot, rfl, ?_, hlive⟩
      rw [hfits.bones]
      exact List.mem_append_left _ (mem_templateBones.mpr ⟨p.slot, hlive, rfl⟩)
  · rcases bone_cases hfits hbone with htemplate | ⟨rows, hrows, p, hp, rfl⟩
    · exact htemplate
    · exact absurd (hvoxel p) (hname p.x p.y p.z p.layer)
  · rw [hcontrollers] at hentry
    simp only [controllersOf, List.mem_cons, List.not_mem_nil, or_false] at hentry
    rcases hentry with rfl | rfl | rfl
    · exact Validation.closed_controller ..
    · exact BoundingBox.closed_controller ..
    · exact Selection.closed_controller ..
  · rw [hcontrollers, controllersOf, Dictionary.get?_cons, if_pos rfl, Option.some_inj] at hc
    subst hc
    obtain ⟨⟨size, v⟩, hv, b, hb, hlocator⟩ := Validation.exists_block_of_effect hentry he
    have hmem := mem_locatorsOf (List.of_mem_zip hv).2 hb
    rw [← hlocators, ← hlocator] at hmem
    obtain ⟨place, hplace, -⟩ := Dictionary.exists_get?_of_mem hmem
    exact ⟨place, hplace⟩

/-- Two structures that share a block, of different heights, one with air and an empty layer. -/
theorem closed_of_make_shared :
    let saved : List SavedStructure := [
      { size := ⟨1, 2, 1⟩
        palette := [⟨"minecraft:stone", [], none, none⟩, ⟨"minecraft:air", [], none, none⟩]
        layers := [#[0, 1], #[-1, 0]] },
      { size := ⟨1, 1, 1⟩, palette := [⟨"dirt", [], none, none⟩], layers := [#[0]] }]
    ∃ pack, (make .standard .keep saved).outcome.1 = .ok pack ∧ pack.Closed := by
  intro saved
  have hok : (make .standard .keep saved).outcome.1.toOption.isSome = true := by decide +kernel
  cases h : (make .standard .keep saved).outcome.1 with
  | error e =>
    rw [h] at hok
    contradiction
  | ok pack => exact ⟨pack, rfl, closed_of_make h⟩

end Pack
end Hologram
