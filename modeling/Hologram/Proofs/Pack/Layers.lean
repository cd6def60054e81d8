import Hologram.Proofs.Pack.Cursor

/-! Runs of the scripts in which the game may tell them anything. The selected layer is always none
or one of the structure that was selected when the frame began. -/
namespace Hologram

open Script

namespace EntityScripts

/-- A run of the second script in a frame in which the game may tell it anything. -/
def runIn (scripts : EntityScripts) (g : Surroundings) (store : Store) :
    Except EvalError (Option Value) × Store :=
  Program.executeText g.functions scripts.frame.text (store.insert "q.is_sneaking" g.sneaking)

def runsIn (scripts : EntityScripts) (frames : List Surroundings) (store : Store) : Store :=
  frames.foldl (fun store g => (scripts.runIn g store).2) store

end EntityScripts

namespace Cursor

def heights (structures : List (Size × Validation)) : List Nat :=
  structures.map fun entry => entry.1.height

variable {count height : Nat} {c : Cursor} {config : Config} {store : Store}
  {structures : List (Size × Validation)} {entry : Size × Validation}

theorem length_heights (structures : List (Size × Validation)) :
    (heights structures).length = structures.length :=
  List.length_map _

theorem heights_getElem? (hentry : structures[c.structureIndex]? = some entry) :
    (heights structures)[c.structureIndex]? = some entry.1.height := by
  simp [heights, hentry]

theorem InRange.exists_selected (h : c.InRange structures.length height) :
    ∃ entry, structures[c.structureIndex]? = some entry :=
  ⟨_, List.getElem?_eq_getElem h.index_lt⟩

theorem InRange.next_selected (h : c.InRange structures.length height)
    (hentry : structures[c.structureIndex]? = some entry) {g : Surroundings} :
    (c.next (heights structures) config g).InRange structures.length entry.1.height := by
  rw [← length_heights structures] at h ⊢
  exact h.next (heights_getElem? hentry)

theorem inRange_first (hcount : 0 < count) (height : Nat) : first.InRange count height :=
  ⟨hcount, by decide, Int.lt_of_lt_of_le (by decide) (Int.natCast_nonneg height)⟩

/-- What the first script leaves is the selection that a hologram starts with. -/
theorem shown_first (hcount : count ≤ 2 ^ 53) (size : Size) (store : Store) :
    first.Shown count (store.setAll (EntityScripts.starts config count size)) := by
  have hvalue (v : Variable) {n : Int}
      (hv : (EntityScripts.starts config count size).lookup v = some n) :
      Expression.variableValue (store.setAll (EntityScripts.starts config count size)) v.name =
        .number (Float.ofInt n) := by
    rw [variableValue_setAll (EntityScripts.nodup_starts config count size), hv]
    rfl
  have hcounts (v : Variable) {n : Int}
      (hv : (EntityScripts.starts config count size).lookup v = some n)
      (hn : n.natAbs ≤ 2 ^ 53) :
      (store.setAll (EntityScripts.starts config count size)).Counts v.name n :=
    ⟨_, hvalue v hv, Number.isInt_ofInt hn⟩
  refine ⟨fun v hv => ?_, hcounts .structureIndex rfl (by decide),
    hcounts .structureCount rfl (by omega), hcounts .layer rfl (by decide),
    (hcounts .wasSneaking rfl (by decide)).isOn, (hcounts .controlsDisabled rfl (by decide)).isOn⟩
  have hset : ∃ n, (EntityScripts.starts config count size).lookup v = some n := by
    cases v <;> first | exact ⟨_, rfl⟩ | simp [Variable.kind] at hv
  obtain ⟨n, hn⟩ := hset
  exact ⟨_, hvalue v hn⟩

variable (hconfig : config.Quotable) (hfits : config.Fits)
  (hnumbered : EntityScripts.Numbered structures) {scripts : EntityScripts}
  (hscripts : scripts.frame =
    EntityScripts.frameCode config (structures.map Prod.fst) (structures.map Prod.snd))

include hconfig hfits hnumbered hscripts

/-- A frame fails only where a query does, and it does to the variables what it does to the
selection. -/
theorem Shown.runIn (h : c.Shown structures.length store)
    (hrange : c.InRange structures.length height)
    (hentry : structures[c.structureIndex]? = some entry) (g : Surroundings) :
    ∃ later, scripts.runIn g store = ((c.acting config g).map fun _ => none, later) ∧
      (c.next (heights structures) config g).Shown structures.length later := by
  have hlow : entry.1.height < 2 ^ 32 := hnumbered.height_lt (List.mem_of_getElem? hentry)
  let begun : Store := store.insert "q.is_sneaking" g.sneaking
  obtain ⟨refreshed, hrefresh, hshown, hheight⟩ :=
    @Shown.exists_leaves_refresh c config begun g.functions structures entry hnumbered hentry
      (h.sneak g.sneaking)
  obtain ⟨_, hrefresh', -, hagrees⟩ :=
    EntityScripts.keeps_refresh hnumbered begun (h.sneak g.sneaking).numeric
  obtain rfl := hrefresh.unique hrefresh'
  have htold : Expression.variableValue refreshed "q.is_sneaking" = g.sneaking := by
    rw [hagrees.variableValue (by decide), variableValue_insert, if_pos rfl]
  obtain ⟨noted, hnote, hnumeric, hagrees', hstarts, hsneaks⟩ :=
    @EntityScripts.exists_leaves_sneaking g.functions _ hshown.numeric _ htold
  have hnoted : (c.refreshed entry.1.height g).Shown structures.length noted :=
    ⟨hnumeric, hagrees'.counts (by decide) hshown.index, hagrees'.counts (by decide) hshown.count,
      hagrees'.counts (by decide) hshown.layer, hsneaks,
      (hagrees'.isOn (by decide)).trans hshown.disabled⟩
  have hfollows := @Surroundings.follows_actions g config noted hconfig
  rw [hstarts, hshown.sneaked, hnoted.disabled] at hfollows
  change g.Follows config [EntityScripts.actions config] noted (c.acting config g) at hfollows
  have hactions : ∃ later, Code.Ends g.functions [EntityScripts.actions config] noted
        ((c.acting config g).map fun _ => ()) later ∧
      (c.next (heights structures) config g).Shown structures.length later := by
    rw [next_eq (heights_getElem? hentry)]
    match hacting : c.acting config g with
    | .error e =>
      rw [hacting] at hfollows
      exact ⟨noted, hfollows, hnoted⟩
    | .ok none =>
      rw [hacting] at hfollows
      exact ⟨noted, hfollows, hnoted⟩
    | .ok (some control) =>
      rw [hacting] at hfollows
      obtain ⟨later, hlater, hshown⟩ := hnoted.exists_leaves_action g.functions_mod
        (hagrees'.counts (by decide) hheight) (hrange.refreshed _ g) hnumbered.length_le hlow
        control
      rw [length_heights]
      exact ⟨later, hfollows later hlater, hshown⟩
  obtain ⟨later, hlater, hnext⟩ := hactions
  refine ⟨later, ?_, hnext⟩
  have hrun := (hrefresh.append_ends (hnote.append_ends hlater)).executeText
    (EntityScripts.readable_frameCode hconfig hfits hnumbered)
  rw [EntityScripts.runIn, hscripts]
  refine hrun.trans ?_
  cases c.acting config g <;> rfl

/-- Frame after frame the variables are those of the selection, and it is in range. -/
theorem Shown.runsIn (h : c.Shown structures.length store)
    (hrange : c.InRange structures.length height) (frames : List Surroundings) :
    (frames.foldl (next (heights structures) config) c).Shown structures.length
        (scripts.runsIn frames store) ∧
      ∃ height, (frames.foldl (next (heights structures) config) c).InRange structures.length
        height := by
  induction frames generalizing c store height with
  | nil => exact ⟨h, height, hrange⟩
  | cons g frames ih =>
    obtain ⟨entry, hentry⟩ := hrange.exists_selected
    obtain ⟨later, hrun, hnext⟩ := h.runIn hconfig hfits hnumbered hscripts hrange hentry g
    have hstep : scripts.runsIn (g :: frames) store = scripts.runsIn frames later := by
      change scripts.runsIn frames (scripts.runIn g store).2 = _
      rw [hrun]
    rw [hstep]
    exact ih hnext (hrange.next_selected hentry)

end Cursor

namespace Surroundings

/-- The player sneaks or not, and he holds an item of some name. -/
def holding (item : String) (sneaks : Bool) : Surroundings where
  sneaking := .ofBool sneaks
  itemName arguments := .ok (.ofBool (arguments.tail.contains (.string item)))
  itemTag _ := .ok (.ofBool false)

end Surroundings

namespace EntityScripts

/-- The first script comes to its end, and then the variables are those of the selection in frame
after frame. -/
theorem exists_shown_runsIn (config : Config) (structures : List (Size × Validation))
    (hconfig : config.Quotable) (hfits : config.Fits) (hstructures : structures ≠ [])
    (hnumbered : Numbered structures) (functions : Functions) (store : Store) :
    ∃ scripts started,
      ofStructures config (structures.map Prod.fst) (structures.map Prod.snd) = .ok scripts ∧
      scripts.frame = frameCode config (structures.map Prod.fst) (structures.map Prod.snd) ∧
      Program.executeText functions scripts.setup.text store = (.ok none, started) ∧
      ∀ frames : List Surroundings,
        (frames.foldl (Cursor.next (Cursor.heights structures) config) .first).Shown
            structures.length (scripts.runsIn frames started) ∧
          ∃ height, (frames.foldl (Cursor.next (Cursor.heights structures) config) .first).InRange
            structures.length height := by
  obtain ⟨first, rest, rfl⟩ := List.exists_cons_of_ne_nil hstructures
  have hcount := hnumbered.length_le
  have hfirst : ∀ n ∈ first.1.extents, n < 2 ^ 32 := (hnumbered.fits first (.head _)).extents_lt
  let scripts : EntityScripts := ⟨setupCode config (first :: rest).length first.1,
    frameCode config ((first :: rest).map Prod.fst) ((first :: rest).map Prod.snd)⟩
  have hsetup :=
    (leaves_setupCode config (first :: rest).length first.1 functions store).executeText
      (readable_setupCode hfits hcount hfirst)
  refine ⟨scripts, _, ?_, rfl, hsetup, fun frames => ?_⟩
  · simp [ofStructures, scripts]
  · exact (Cursor.shown_first hcount first.1 store).runsIn hconfig hfits hnumbered rfl
      (Cursor.inRange_first (Nat.succ_pos rest.length) first.1.height) frames

/-- Whatever the game tells the scripts, frame after frame, and even where queries fail: after each
frame the selected layer is none, or one below the height of the structure that was selected when
the frame began. That is the structure selected after it, unless the player sneaks in the frame and
the item is held that selects another one. A frame whose queries are all answered comes to its
end. -/
theorem layer_lt_height (config : Config) (structures : List (Size × Validation))
    (hconfig : config.Quotable) (hfits : config.Fits) (hstructures : structures ≠ [])
    (hnumbered : Numbered structures) (functions : Functions) (store : Store) :
    ∃ scripts started,
      ofStructures config (structures.map Prod.fst) (structures.map Prod.snd) = .ok scripts ∧
      Program.executeText functions scripts.setup.text store = (.ok none, started) ∧
      ∀ (frames : List Surroundings) (g : Surroundings), ∃ (i j : Nat)
          (before after : Size × Validation) (y : Int) (outcome : Except EvalError (Option Value))
          (later : Store),
        scripts.runIn g (scripts.runsIn frames started) = (outcome, later) ∧
        (scripts.runsIn frames started).HasInt Variable.structureIndex.name i ∧
        structures[i]? = some before ∧
        later.HasInt Variable.structureIndex.name j ∧ structures[j]? = some after ∧
        later.HasInt Variable.layer.name y ∧ (y = -1 ∨ 0 ≤ y ∧ y < before.1.height) ∧
        (j ≠ i → g.sneaking.isTruthy = true ∧ g.Holds config .changeStructure) ∧
        ((∀ control, ∃ value, g.answer config control = .ok value) → outcome = .ok none) := by
  obtain ⟨scripts, started, hscripts, hframe, hsetup, hruns⟩ :=
    exists_shown_runsIn config structures hconfig hfits hstructures hnumbered functions store
  refine ⟨scripts, started, hscripts, hsetup, fun frames g => ?_⟩
  obtain ⟨hshown, height, hrange⟩ := hruns frames
  obtain ⟨before, hbefore⟩ := hrange.exists_selected
  obtain ⟨later, hrun, hnext⟩ := hshown.runIn hconfig hfits hnumbered hframe hrange hbefore g
  have hrange' := @Cursor.InRange.next_selected _ _ config _ _ hrange hbefore g
  obtain ⟨after, hafter⟩ := hrange'.exists_selected
  have hcount := hnumbered.length_le
  have hlow : before.1.height < 2 ^ 32 := hnumbered.height_lt (List.mem_of_getElem? hbefore)
  have hindex := hrange.index_lt
  have hindex' := hrange'.index_lt
  have hge := hrange'.layer_ge
  have hlt := hrange'.layer_lt
  refine ⟨_, _, before, after, _, _, later, hrun, hshown.index.hasInt (by omega), hbefore,
    hnext.index.hasInt (by omega), hafter, hnext.layer.hasInt (by omega), by omega,
    Cursor.structureIndex_next, fun hanswers => ?_⟩
  obtain ⟨control?, hacting⟩ := Surroundings.exists_acting hanswers
    (g.sneaking.isTruthy && !Cursor.sneaked _) (Cursor.disabled _)
  rw [Cursor.acting, hacting]
  rfl

theorem numbered_three_one :
    Numbered [(⟨1, 3, 1⟩, ⟨[], [0, 0, 0]⟩), (⟨1, 1, 1⟩, ⟨[], [0]⟩)] := by
  refine ⟨by decide, List.forall_mem_cons.mpr ⟨⟨?_, by decide, ?_, by decide⟩,
    List.forall_mem_singleton.mpr ⟨?_, by decide, ?_, by decide⟩⟩⟩ <;> decide

/-- With structures of three layers and of one, the layer is always one of three, or none. -/
theorem layer_lt_height_three : ∃ scripts started,
    ofStructures .standard [⟨1, 3, 1⟩, ⟨1, 1, 1⟩] [⟨[], [0, 0, 0]⟩, ⟨[], [0]⟩] = .ok scripts ∧
    Program.executeText [] scripts.setup.text [] = (.ok none, started) ∧
    ∀ (frames : List Surroundings) (g : Surroundings), ∃ y : Int,
      (scripts.runIn g (scripts.runsIn frames started)).2.HasInt "v.hologram.layer" y ∧
      -1 ≤ y ∧ y < 3 := by
  obtain ⟨scripts, started, hscripts, hsetup, hruns⟩ := layer_lt_height .standard
    [(⟨1, 3, 1⟩, ⟨[], [0, 0, 0]⟩), (⟨1, 1, 1⟩, ⟨[], [0]⟩)] Config.quotable_standard
    Config.fits_standard (by decide) numbered_three_one [] []
  refine ⟨scripts, started, hscripts, hsetup, fun frames g => ?_⟩
  obtain ⟨i, j, before, after, y, outcome, later, hrun, -, hbefore, -, -, hlayer, hy, -⟩ :=
    hruns frames g
  have hheight : before.1.height ≤ 3 := by
    rcases List.mem_pair.mp (List.mem_of_getElem? hbefore) with rfl | rfl <;> decide
  rw [hrun]
  exact ⟨y, hlayer, by omega, by omega⟩

/-- In the frame that selects a lower structure the layer stays as it is, so that it can be above
that structure until the next frame: of structures of three layers and of one, the second is
selected together with the highest layer of the first. -/
theorem layer_not_always_below : ∃ scripts started,
    ofStructures .standard [⟨1, 3, 1⟩, ⟨1, 1, 1⟩] [⟨[], [0, 0, 0]⟩, ⟨[], [0]⟩] = .ok scripts ∧
    Program.executeText [] scripts.setup.text [] = (.ok none, started) ∧
    let later := scripts.runsIn [.holding "minecraft:feather" true,
      .holding "minecraft:feather" false, .holding "minecraft:arrow" true] started
    later.HasInt "v.hologram.structure_index" 1 ∧ later.HasInt "v.hologram.layer" 2 := by
  obtain ⟨scripts, started, hscripts, -, hsetup, hruns⟩ := exists_shown_runsIn .standard
    [(⟨1, 3, 1⟩, ⟨[], [0, 0, 0]⟩), (⟨1, 1, 1⟩, ⟨[], [0]⟩)] Config.quotable_standard
    Config.fits_standard (by decide) numbered_three_one [] []
  have hselection : [Surroundings.holding "minecraft:feather" true,
      .holding "minecraft:feather" false, .holding "minecraft:arrow" true].foldl
        (Cursor.next [3, 1] .standard) .first = ⟨1, 2, true, false⟩ := by
    decide +kernel
  obtain ⟨hshown, -⟩ := hruns [.holding "minecraft:feather" true,
    .holding "minecraft:feather" false, .holding "minecraft:arrow" true]
  change Cursor.Shown 2 ([Surroundings.holding "minecraft:feather" true,
    .holding "minecraft:feather" false, .holding "minecraft:arrow" true].foldl
      (Cursor.next [3, 1] .standard) .first) _ at hshown
  rw [hselection] at hshown
  exact ⟨scripts, started, hscripts, hsetup, hshown.index.hasInt (by decide),
    hshown.layer.hasInt (by decide)⟩

end EntityScripts
end Hologram
