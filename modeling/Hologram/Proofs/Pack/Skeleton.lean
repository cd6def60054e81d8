import Hologram.Proofs.Pack.Making
import Hologram.Proofs.Pack.Placement

/-! The bones of several structures. Where structures have blocks at one position of one layer, the
first of them decides what the bone there repeats. -/
namespace Hologram

/-- Template bones have names of their own. -/
theorem templateBone_ne_voxelBone (slot x y z number : Nat) :
    templateBone slot ≠ voxelBone x y z number := by
  intro h
  have hlist := congrArg String.toList h
  rw [templateBone, voxelBone, String.toList_append, String.toList_append] at hlist
  simp at hlist

namespace Skeleton

/-- A skeleton has each of some bones once by its name, and the first of a name is the one that it
has. -/
def Collects (s : Skeleton) (added : List Bone) : Prop :=
  ∀ name, s.parents[name]? = (added.find? (·.name == name)).map Bone.parent ∧
    s.bones.toList.filter (·.name == name) = (added.find? (·.name == name)).toList

theorem collects_empty : Collects {} [] := by
  intro name
  simp

/-- One more bone is taken when there is none of its name. -/
theorem Collects.add {s : Skeleton} {added : List Bone} (h : s.Collects added) (index : Nat)
    (bone : Bone) : (s.add index bone).Collects (added ++ [bone]) := by
  intro name
  obtain ⟨hparent, hbones⟩ := h name
  unfold Skeleton.add
  cases hown : s.parents[bone.name]? with
  | none =>
    by_cases hname : bone.name = name
    · subst hname
      have hnone : added.find? (·.name == bone.name) = none :=
        Option.map_eq_none_iff.mp (hparent.symm.trans hown)
      simp [hnone, hbones]
    · simp [hname, hparent, hbones, Std.HashMap.getElem?_insert]
  | some parent =>
    have hsame : (added ++ [bone]).find? (·.name == name) = added.find? (·.name == name) := by
      by_cases hname : bone.name = name
      · subst hname
        obtain ⟨old, hold, -⟩ := Option.map_eq_some_iff.mp (hparent.symm.trans hown)
        rw [List.find?_append, hold, Option.some_or]
      · simp [hname]
    rw [hsame]
    dsimp only
    split_ifs <;> exact ⟨hparent, hbones⟩

theorem Collects.foldl {s : Skeleton} {added : List Bone} (h : s.Collects added) (index : Nat)
    (bones : List Bone) : (bones.foldl (Skeleton.add index) s).Collects (added ++ bones) := by
  induction bones generalizing s added with
  | nil => simpa using h
  | cons bone rest ih => simpa using ih (h.add index bone)

/-- The skeleton of structures collects the bones of all their blocks. -/
theorem collects_ofRows (structures : List (List (List Placement))) :
    (ofRows structures).Collects
      (structures.flatMap fun rows => rows.flatten.map Placement.bone) := by
  have hfold : ∀ (entries : List (List (List Placement) × Nat)) {s : Skeleton}
      {added : List Bone}, s.Collects added →
      (entries.foldl
        (fun s entry => (entry.1.flatten.map Placement.bone).foldl (add entry.2) s)
        s).Collects (added ++ entries.flatMap fun entry => entry.1.flatten.map Placement.bone) := by
    intro entries
    induction entries with
    | nil => exact fun h => by simpa using h
    | cons entry rest ih =>
      intro s added h
      rw [List.flatMap_cons, ← List.append_assoc]
      exact ih (h.foldl entry.2 _)
  have h := hfold structures.zipIdx collects_empty
  rw [List.nil_append, ← List.flatMap_map Prod.fst fun rows : List (List Placement) =>
    rows.flatten.map Placement.bone, List.zipIdx_map_fst] at h
  exact h

end Skeleton

namespace Pack

variable {config : Config} {upgrader : Upgrader}

/-- The slot of the block of a structure at a position of one layer. -/
def slotAt? (pack : Pack) (index x y z number : Nat) : Option Nat := do
  let size ← pack.sizes[index]?
  let layers ← pack.structures[index]?
  Placement.slotAt? size pack.palette layers x y z number

/-- The block with the name of a position, among the blocks at each height of a structure. -/
def blockNamed? (name : String) (rows : List (List Placement)) : Option Placement :=
  rows.flatten.find? (·.boneName == name)

/-- The slot at a position is that of the block with its name. -/
theorem slotAt?_eq (pack : Pack) (index x y z number : Nat) :
    pack.slotAt? index x y z number =
      pack.rows[index]?.bind fun rows =>
        (blockNamed? (voxelBone x y z number) rows).map Placement.slot := by
  unfold slotAt? rows blockNamed?
  rw [List.getElem?_zipWith]
  cases pack.sizes[index]? with
  | none => rfl
  | some size =>
    cases pack.structures[index]? with
    | none => rfl
    | some layers => exact (Placement.find?_flatten_rows x y z number).symm

theorem filter_templateBones (palette : Palette) (x y z number : Nat) :
    (templateBones palette).filter (·.name == voxelBone x y z number) = [] := by
  refine List.filter_eq_nil_iff.mpr fun bone hbone hname => ?_
  obtain ⟨⟨slot, block⟩, -, rfl⟩ := List.mem_map.mp hbone
  exact templateBone_ne_voxelBone slot x y z number (beq_iff_eq.mp hname)

/-- Among the bones of a pack is one for the block of the first structure that has one at a
position. -/
theorem filter_bones {pack : Pack} (h : pack.Fits config) (x y z number : Nat) :
    pack.bones.filter (·.name == voxelBone x y z number) =
      ((pack.rows.findSome? (blockNamed? (voxelBone x y z number))).map Placement.bone).toList := by
  have hcollects := (Skeleton.collects_ofRows pack.rows (voxelBone x y z number)).2
  have hfind : ∀ rows : List (List Placement), (rows.flatten.map Placement.bone).find?
      (·.name == voxelBone x y z number) =
        (blockNamed? (voxelBone x y z number) rows).map Placement.bone := by
    intro rows
    rw [List.find?_map]
    rfl
  rw [h.bones, List.filter_append, filter_templateBones, List.nil_append, hcollects,
    List.find?_flatMap, funext hfind, List.map_findSome?]
  rfl

/-- The animation of a structure moves the bones of its blocks. -/
theorem exists_motion {pack : Pack} (h : pack.Fits config) {index x y z number slot : Nat}
    (hslot : pack.slotAt? index x y z number = some slot) :
    ∃ animation motion, pack.animations[index]? = some animation ∧ animation.index = index ∧
      (voxelBone x y z number, motion) ∈ animation.bones := by
  rw [slotAt?_eq] at hslot
  obtain ⟨rows, hrows, hslot⟩ := Option.bind_eq_some_iff.mp hslot
  obtain ⟨p, hp, -⟩ := Option.map_eq_some_iff.mp hslot
  have hname : p.boneName = voxelBone x y z number := by simpa using List.find?_some hp
  obtain ⟨row, hrow, hp⟩ := List.mem_flatten.mp (List.mem_of_find?_eq_some hp)
  obtain ⟨y', hy'⟩ := List.mem_iff_getElem?.mp hrow
  refine ⟨Animation.ofRows index config.miniScale rows,
    ⟨p.origin, (Animation.scale y' config.miniScale).text⟩, ?_, rfl, ?_⟩
  · simp [h.animations, hrows]
  · refine List.mem_flatMap.mpr ⟨(row, y'), List.mk_mem_zipIdx_iff_getElem?.mpr hy', ?_⟩
    exact List.mem_map.mpr ⟨p, hp, by rw [hname]⟩

/-- Every voxel that holds a block has a bone that the animation of its structure moves. There is
one bone of that name, and it repeats the block of the first structure that has one at the position:
the own block of the voxel, unless an earlier structure has another block there. -/
theorem bone_of_slotAt? {saved : List SavedStructure} {pack : Pack}
    (h : (make config upgrader saved).outcome.1 = .ok pack) {index x y z number slot : Nat}
    (hslot : pack.slotAt? index x y z number = some slot) :
    (∃ animation motion, pack.animations[index]? = some animation ∧ animation.index = index ∧
      (voxelBone x y z number, motion) ∈ animation.bones) ∧
    ∃ first drawn, first ≤ index ∧ pack.slotAt? first x y z number = some drawn ∧
      (∀ earlier < first, pack.slotAt? earlier x y z number = none) ∧
      pack.bones.filter (·.name == voxelBone x y z number) =
        [{ name := voxelBone x y z number, parent := templateBone drawn }] ∧
      ((∀ earlier < index, ∀ other, pack.slotAt? earlier x y z number = some other →
        other = slot) → drawn = slot) := by
  have hfits := fits_of_make h
  refine ⟨exists_motion hfits hslot, ?_⟩
  have hsome : pack.rows.findSome? (blockNamed? (voxelBone x y z number)) ≠ none := by
    intro hnone
    rw [slotAt?_eq] at hslot
    obtain ⟨rows, hrows, hp⟩ := Option.bind_eq_some_iff.mp hslot
    rw [List.findSome?_eq_none_iff.mp hnone rows (List.mem_of_getElem? hrows)] at hp
    contradiction
  obtain ⟨p, hp⟩ := Option.ne_none_iff_exists'.mp hsome
  obtain ⟨before, rows, after, hsplit, hblock, hbefore⟩ := List.findSome?_eq_some_iff.mp hp
  have hname : p.boneName = voxelBone x y z number := by simpa using List.find?_some hblock
  have hfirst : pack.slotAt? before.length x y z number = some p.slot := by
    rw [slotAt?_eq, hsplit]
    simp [hblock]
  have hearlier : ∀ earlier < before.length, pack.slotAt? earlier x y z number = none := by
    intro earlier hlt
    rw [slotAt?_eq, hsplit, List.getElem?_append_left hlt, List.getElem?_eq_getElem hlt,
      Option.bind_some, hbefore _ (List.getElem_mem hlt), Option.map_none]
  have hle : before.length ≤ index := by
    by_contra hlt
    rw [hearlier index (Nat.not_le.mp hlt)] at hslot
    contradiction
  refine ⟨before.length, p.slot, hle, hfirst, hearlier, ?_, fun hsame => ?_⟩
  · rw [filter_bones hfits, hp, ← hname]
    rfl
  · rcases Nat.lt_or_eq_of_le hle with hlt | heq
    · exact hsame _ hlt _ hfirst
    · rw [heq, hslot] at hfirst
      exact (Option.some.inj hfirst).symm

/-- Two structures of two voxels that have the same block at the first place. -/
theorem bone_of_slotAt?_shared :
    let saved (second : String) : SavedStructure := {
      size := ⟨2, 1, 1⟩
      palette := [⟨"minecraft:stone", [], none, none⟩, ⟨second, [], none, none⟩]
      layers := [#[0, 1]] }
    ∃ pack, (make .standard .keep [saved "dirt", saved "sand"]).outcome.1 = .ok pack ∧
      pack.slotAt? 1 1 0 0 0 = some 2 ∧
      (∃ animation motion, pack.animations[1]? = some animation ∧ animation.index = 1 ∧
        (voxelBone 1 0 0 0, motion) ∈ animation.bones) ∧
      ∃ first drawn, first ≤ 1 ∧ pack.slotAt? first 1 0 0 0 = some drawn ∧
        (∀ earlier < first, pack.slotAt? earlier 1 0 0 0 = none) ∧
        pack.bones.filter (·.name == voxelBone 1 0 0 0) =
          [{ name := voxelBone 1 0 0 0, parent := templateBone drawn }] ∧
        ((∀ earlier < 1, ∀ other, pack.slotAt? earlier 1 0 0 0 = some other → other = 2) →
          drawn = 2) := by
  intro saved
  have hok : ((make .standard .keep [saved "dirt", saved "sand"]).outcome.1.toOption.any
      fun pack => decide (pack.slotAt? 1 1 0 0 0 = some 2)) = true := by decide +kernel
  cases h : (make .standard .keep [saved "dirt", saved "sand"]).outcome.1 with
  | error e =>
    rw [h] at hok
    contradiction
  | ok pack =>
    rw [h] at hok
    have hslot : pack.slotAt? 1 1 0 0 0 = some 2 := of_decide_eq_true hok
    exact ⟨pack, rfl, hslot, bone_of_slotAt? h hslot⟩

/-- Where an earlier structure has another block, no bone repeats the own block of a voxel. -/
theorem bone_ne_own_of_earlier :
    let saved (name : String) : SavedStructure := {
      size := ⟨1, 1, 1⟩
      palette := [⟨name, [], none, none⟩]
      layers := [#[0]] }
    ∃ pack, (make .standard .keep [saved "stone", saved "dirt"]).outcome.1 = .ok pack ∧
      pack.slotAt? 1 0 0 0 0 = some 1 ∧
      ∀ bone ∈ pack.bones, bone.name = voxelBone 0 0 0 0 → bone.parent ≠ templateBone 1 := by
  intro saved
  have hok : ((make .standard .keep [saved "stone", saved "dirt"]).outcome.1.toOption.any
      fun pack => decide (pack.slotAt? 1 0 0 0 0 = some 1 ∧
        (pack.rows.findSome? (blockNamed? (voxelBone 0 0 0 0))).map (·.bone.parent) =
          some (templateBone 0))) = true := by decide +kernel
  cases h : (make .standard .keep [saved "stone", saved "dirt"]).outcome.1 with
  | error e =>
    rw [h] at hok
    contradiction
  | ok pack =>
    rw [h] at hok
    obtain ⟨hslot, hparent⟩ := of_decide_eq_true hok
    refine ⟨pack, rfl, hslot, fun bone hbone hname => ?_⟩
    obtain ⟨p, hp, hparent⟩ := Option.map_eq_some_iff.mp hparent
    have hmem : bone ∈ pack.bones.filter (·.name == voxelBone 0 0 0 0) :=
      List.mem_filter.mpr ⟨hbone, beq_iff_eq.mpr hname⟩
    rw [filter_bones (fits_of_make h), hp] at hmem
    rw [List.mem_singleton.mp hmem, hparent]
    decide

end Pack
end Hologram
