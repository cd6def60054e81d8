import Hologram.Proofs.Pack.Outline

/-! The controller of the bounding box is built for all sizes, with its scripts compiled from the
procedures of the edges, and from every state it settles in the box of the selected structure. -/
namespace Hologram.BoundingBox

open Script

/-- The state in which no box is drawn, with a way to every box. -/
def hiddenState (sizes : List Size) : ControllerState where
  transitions := sizes.zipIdx.map fun (_, index) => .when (visible index) (shows index)

/-- The state that draws a box by compiled procedures. -/
def compiledState (size : Size) (index : Nat) : Except CompileError ControllerState := do
  let scripts ← outlines.mapM (compile · (bindings size))
  return { effects := scripts.map (⟨particle, rootBone, ·⟩)
           transitions := [.when hidden (hides index)] }

/-- The controller whose boxes are drawn by compiled procedures. -/
def compiled (sizes : List Size) : Except CompileError Controller := do
  let states ← sizes.zipIdx.mapM fun (size, index) =>
    return (visible index, ← compiledState size index)
  return ⟨hidden, (hidden, hiddenState sizes) :: states⟩

variable {sizes : List Size} {size : Size} {index : Nat}

theorem compiledState_eq (hsize : ∀ n ∈ size.extents, n < 2 ^ 32) (index : Nat) :
    compiledState size index = .ok (visibleState size index) := by
  rw [compiledState, mapM_compile_outlines hsize, ok_bind, List.map_map]
  rfl

/-- No procedure fails, whatever the extents are. -/
theorem compiled_eq (hsizes : ∀ size ∈ sizes, ∀ n ∈ size.extents, n < 2 ^ 32) :
    compiled sizes = .ok (controller sizes) := by
  have hstates : (sizes.zipIdx.mapM fun (size, index) => do
      return (visible index, ← compiledState size index)) =
      .ok (sizes.zipIdx.map fun (size, index) => (visible index, visibleState size index)) := by
    refine mapM_eq_ok_of_forall fun ⟨size, index⟩ hmem => ?_
    dsimp only
    rw [compiledState_eq (hsizes size (List.fst_mem_of_mem_zipIdx hmem))]
    rfl
  rw [compiled, hstates]
  rfl

theorem visible_inj {i j : Nat} (h : visible i = visible j) : i = j :=
  Number.numbered_inj h

theorem visible_ne_hidden (index : Nat) : visible index ≠ hidden := by
  intro h
  have htext := congrArg (·.toList.head?) h
  simp [visible, hidden] at htext

theorem length_effects_visibleState (size : Size) (index : Nat) :
    (visibleState size index).effects.length = 12 := by
  rw [visibleState, List.length_map]
  rfl

theorem state?_hidden (sizes : List Size) :
    (controller sizes).state? hidden = some (hiddenState sizes) := by
  rw [Controller.state?, controller, Dictionary.get?_cons, if_pos rfl]
  rfl

theorem map_fst_states (sizes : List Size) : (controller sizes).states.map Prod.fst =
    hidden :: (List.range sizes.length).map visible := by
  rw [controller, List.map_cons, List.map_map, List.range_eq_range', ← List.zipIdx_map_snd,
    List.map_map]
  rfl

theorem map_target_hiddenState (sizes : List Size) :
    (hiddenState sizes).transitions.map (·.target) = (List.range sizes.length).map visible := by
  rw [hiddenState, List.map_map, List.range_eq_range', ← List.zipIdx_map_snd, List.map_map]
  rfl

theorem distinct_states (sizes : List Size) : Dictionary.Distinct (controller sizes).states := by
  rw [Dictionary.Distinct, map_fst_states, List.nodup_cons]
  refine ⟨fun hmem => ?_, List.nodup_range.map fun _ _ => visible_inj⟩
  obtain ⟨index, -, hindex⟩ := List.mem_map.mp hmem
  exact visible_ne_hidden index hindex

theorem state?_visible (h : sizes[index]? = some size) :
    (controller sizes).state? (visible index) = some (visibleState size index) := by
  refine (distinct_states sizes).get?_eq_some_iff.mpr (List.mem_cons_of_mem _ ?_)
  exact List.mem_map.mpr ⟨(size, index), List.mem_zipIdx_iff_getElem?.mpr h, rfl⟩

def isOn (store : Store) : Bool :=
  (Expression.variableValue store Variable.rendering.name).isTruthy

/-- The state for a selection: the box of the selected structure, if there is one to render. -/
def shown (count : Nat) (rendering : Bool) (selected : Int) : String :=
  if rendering = true ∧ 0 ≤ selected ∧ selected < count then visible selected.toNat else hidden

theorem shown_eq_visible_iff {count : Nat} {rendering : Bool} {selected : Int}
    (h : index < count) :
    visible index = shown count rendering selected ↔
      (rendering && decide (selected = index)) := by
  rw [Bool.and_eq_true, decide_eq_true_eq, shown]
  split_ifs with hshown
  · constructor
    · intro heq
      have := visible_inj heq
      exact ⟨hshown.1, by omega⟩
    · rintro ⟨-, rfl⟩
      rw [Int.toNat_natCast]
  · constructor
    · intro heq
      exact absurd heq (visible_ne_hidden index)
    · rintro ⟨hrendering, rfl⟩
      exact absurd ⟨hrendering, by omega, by omega⟩ hshown

theorem shown_cases (count : Nat) (rendering : Bool) (selected : Int) :
    shown count rendering selected = hidden ∨
      ∃ index < count, visible index = shown count rendering selected := by
  rw [shown]
  split_ifs with hshown
  · exact .inr ⟨selected.toNat, by omega, rfl⟩
  · exact .inl rfl

section

variable (functions : Functions) {store : Store} {selected : Int}
  (hstore : store.HasInt Variable.structureIndex.name selected)
  (hselected : selected.natAbs ≤ 2 ^ 53)

include hstore hselected

theorem decides_shows (hindex : index ≤ 2 ^ 53) (target : String) :
    (Transition.when target (shows index)).Decides functions store
      (isOn store && decide (selected = index)) := by
  have hfaithful : (shows index).Faithful := by
    refine faithful_chained (by decide) (Variable.faithful_get _) fun e he => ?_
    rw [List.mem_singleton.mp he]
    exact Variable.faithful_compare (by decide) _ (by omega)
  have hdecides : (shows index).Decides functions store
      (isOn store && [decide (selected = index)].all id) :=
    decides_chained_and (Expression.decides_name _)
      (.cons (Expression.decides_compare rfl hstore hselected (by omega) rfl) .nil)
  simpa using Transition.decides_when hfaithful hdecides target

theorem decides_hides (hindex : index ≤ 2 ^ 53) (target : String) :
    (Transition.when target (hides index)).Decides functions store
      (!(isOn store && decide (selected = index))) := by
  have hfaithful : (hides index).Faithful := by
    refine faithful_chained (by decide) (Variable.faithful_negation _) fun e he => ?_
    rw [List.mem_singleton.mp he]
    exact Variable.faithful_compare (by decide) _ (by omega)
  have hdecides : (hides index).Decides functions store
      (!isOn store || [decide (selected ≠ index)].any id) :=
    decides_chained_or (Expression.decides_name _).not
      (.cons (Expression.decides_compare rfl hstore hselected (by omega) rfl) .nil)
  simpa using Transition.decides_when hfaithful hdecides target

variable (hcount : sizes.length ≤ 2 ^ 53)

include hcount

/-- In the state of the selected box no guard holds. -/
theorem settles_shown (h : index < sizes.length)
    (hshown : visible index = shown sizes.length (isOn store) selected) (steps : Nat) :
    (controller sizes).SettlesWithin functions store (steps + 1) (visible index) (visible index)
      0 := by
  have hback := decides_hides functions hstore hselected (show index ≤ 2 ^ 53 by omega) hidden
  rw [(shown_eq_visible_iff h).mp hshown] at hback
  refine .settled (state?_visible (List.getElem?_eq_getElem h)) ?_ steps 0
  exact Controller.enabled?_cons_of_decides_false _ hback

/-- The state without a box leads to the state for the selection. -/
theorem decides_hiddenState : ∀ t ∈ (hiddenState sizes).transitions, t.Decides functions store
    (t.target == shown sizes.length (isOn store) selected) := by
  intro t ht
  obtain ⟨⟨size, index⟩, hmem, rfl⟩ := List.mem_map.mp ht
  have hindex : index < sizes.length := List.snd_lt_of_mem_zipIdx hmem
  have hvalue : (visible index == shown sizes.length (isOn store) selected) =
      (isOn store && decide (selected = index)) := by
    rw [Bool.eq_iff_iff, beq_iff_eq, shown_eq_visible_iff hindex]
  change Transition.Decides functions store _ (visible index == _)
  rw [hvalue]
  exact decides_shows functions hstore hselected (by omega) (visible index)

/-- From the state without a box it takes one transition at the most. -/
theorem settles_hidden (steps : Nat) :
    (controller sizes).SettlesWithin functions store (steps + 2) hidden
      (shown sizes.length (isOn store) selected) 1 := by
  have hdecides := decides_hiddenState functions hstore hselected hcount
  rcases Controller.enabled?_of_decides_target hdecides with ⟨hmem, hnone⟩ | ⟨hmem, t, ht, htaken⟩
  · rcases shown_cases sizes.length (isOn store) selected with hhidden | ⟨index, hindex, hshown⟩
    · rw [hhidden]
      exact .settled (state?_hidden sizes) hnone (steps + 1) 1
    · rw [map_target_hiddenState, ← hshown] at hmem
      exact absurd (List.mem_map_of_mem (List.mem_range.mpr hindex)) hmem
  · rw [map_target_hiddenState] at hmem
    obtain ⟨index, hindex, hshown⟩ := List.mem_map.mp hmem
    refine .taken (state?_hidden sizes) htaken ?_
    rw [ht, ← hshown]
    exact settles_shown functions hstore hselected hcount (List.mem_range.mp hindex) hshown steps

/-- From the state with a box it takes two transitions at the most. -/
theorem settles_visible (h : index < sizes.length) (steps : Nat) :
    (controller sizes).SettlesWithin functions store (steps + 3) (visible index)
      (shown sizes.length (isOn store) selected) 2 := by
  by_cases hshown : visible index = shown sizes.length (isOn store) selected
  · have hsettled := settles_shown functions hstore hselected hcount h hshown (steps + 2)
    rw [← hshown]
    exact hsettled.mono (Nat.zero_le 2)
  · have hback := decides_hides functions hstore hselected (show index ≤ 2 ^ 53 by omega) hidden
    rw [eq_false_of_ne_true (mt (shown_eq_visible_iff h).mpr hshown)] at hback
    have henabled := Controller.enabled?_cons_of_decides_true [] hback
    exact .taken (state?_visible (List.getElem?_eq_getElem h)) henabled
      (settles_hidden functions hstore hselected hcount steps)

/-- A run from any state settles in the state for the selection. -/
theorem settles_controller {start : String}
    (hstart : start ∈ (controller sizes).states.map Prod.fst) :
    (controller sizes).SettlesWithin functions store ((controller sizes).states.length + 1) start
      (shown sizes.length (isOn store) selected) 2 := by
  have hlength : (controller sizes).states.length = sizes.length + 1 := by
    rw [← List.length_map Prod.fst, map_fst_states, List.length_cons, List.length_map,
      List.length_range]
  rw [map_fst_states, List.mem_cons, List.mem_map] at hstart
  rw [hlength]
  rcases hstart with rfl | ⟨index, hindex, rfl⟩
  · exact (settles_hidden functions hstore hselected hcount sizes.length).mono
      (show 1 ≤ 2 by decide)
  · have hindex := List.mem_range.mp hindex
    obtain ⟨steps, hsteps⟩ := Nat.exists_eq_add_of_lt hindex
    have htotal : sizes.length + 1 + 1 = index + steps + 3 := by omega
    rw [htotal]
    exact settles_visible functions hstore hselected hcount hindex _

end

/-- The controller is built whatever the extents are, with twelve effects for every box. Its runs
end after two transitions at the most, in the box of the selected structure if there is one to
render, and else without a box. -/
theorem compiled_settles (hcount : sizes.length < 2 ^ 53)
    (hsizes : ∀ size ∈ sizes, ∀ n ∈ size.extents, n < 2 ^ 32) :
    compiled sizes = .ok (controller sizes) ∧
      (∀ index < sizes.length, ∃ state, (controller sizes).state? (visible index) = some state ∧
        state.effects.length = 12) ∧
      ∀ functions store selected, store.HasInt Variable.structureIndex.name selected →
        selected.natAbs ≤ 2 ^ 53 → ∀ start ∈ (controller sizes).states.map Prod.fst,
          ∃ path, path.length ≤ 2 ∧
            (controller sizes).run functions store start = ⟨start :: path, .settled⟩ ∧
            ((controller sizes).run functions store start).last? =
              some (shown sizes.length (isOn store) selected) := by
  refine ⟨compiled_eq hsizes, fun index hindex => ?_,
    fun functions store selected hstore hselected start hstart => ?_⟩
  · exact ⟨_, state?_visible (List.getElem?_eq_getElem hindex), length_effects_visibleState _ _⟩
  · exact (settles_controller functions hstore hselected (Nat.le_of_lt hcount) hstart).run

/-- Of two boxes, one with an odd extent, the second is drawn and the first is asked for. -/
theorem compiled_settles_two :
    let sizes : List Size := [⟨3, 4, 4294967295⟩, ⟨1, 2, 6⟩]
    let store : Store := [("v.hologram.rendering", .number 1.0),
      ("v.hologram.structure_index", .number 0.0)]
    sizes.length < 2 ^ 53 ∧ (∀ size ∈ sizes, ∀ n ∈ size.extents, n < 2 ^ 32) ∧
      compiled sizes = .ok (controller sizes) ∧
      store.HasInt Variable.structureIndex.name 0 ∧
      ∃ path, path.length ≤ 2 ∧
        (controller sizes).run [] store "visible_1" = ⟨"visible_1" :: path, .settled⟩ ∧
        ((controller sizes).run [] store "visible_1").last? = some "visible_0" := by
  intro sizes store
  have hcount : sizes.length < 2 ^ 53 := by decide
  have hsizes : ∀ size ∈ sizes, ∀ n ∈ size.extents, n < 2 ^ 32 := by decide
  have hstore : store.HasInt Variable.structureIndex.name 0 :=
    ⟨0.0, by decide +kernel, by decide +kernel⟩
  have hstart : "visible_1" ∈ (controller sizes).states.map Prod.fst := by
    rw [map_fst_states]
    decide +kernel
  have hshown : shown sizes.length (isOn store) 0 = "visible_0" := by decide +kernel
  obtain ⟨hcompiled, -, hruns⟩ := compiled_settles hcount hsizes
  have hrun := hruns [] store 0 hstore (by decide) "visible_1" hstart
  rw [hshown] at hrun
  exact ⟨hcount, hsizes, hcompiled, hstore, hrun⟩

end Hologram.BoundingBox
