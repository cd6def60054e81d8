import Hologram.Proofs.Pack.Surroundings

/-! Which structure and which layer are selected, as a machine of its own: what a frame does to the
selection, whatever the game tells the scripts, and that the scripts do the same. -/
namespace Hologram

open Script

/-- The selection of a structure and a layer, with what settles in the next frame whether a control
acts: whether the player sneaked last, and whether the controls are disabled. -/
structure Cursor where
  structureIndex : Nat
  layer : Int
  sneaked : Bool
  disabled : Bool
  deriving DecidableEq, Repr

namespace Cursor

/-- The selection that a hologram starts with. -/
def first : Cursor := ⟨0, -1, false, false⟩

/-- The layer is not left above the structure. -/
def clamped (height : Nat) (c : Cursor) : Cursor :=
  { c with layer := if (height : Int) ≤ c.layer then height - 1 else c.layer }

/-- What a control does to the selection, in a structure of some height that is one of several. -/
def steered (count height : Nat) (c : Cursor) : Control → Cursor
  | .changeLayer => { c with layer := if (height : Int) ≤ c.layer + 1 then -1 else c.layer + 1 }
  | .decreaseLayer => { c with layer := if c.layer - 1 < -1 then height - 1 else c.layer - 1 }
  | .changeStructure => { c with structureIndex := (c.structureIndex + 1) % count }
  | .disablePlayerControls => { c with disabled := !c.disabled }
  | _ => c

def acting (config : Config) (g : Surroundings) (c : Cursor) : Except EvalError (Option Control) :=
  g.acting config (g.sneaking.isTruthy && !c.sneaked) c.disabled

/-- What a frame does before a control acts. -/
def refreshed (height : Nat) (g : Surroundings) (c : Cursor) : Cursor :=
  { c.clamped height with sneaked := g.sneaking.isTruthy }

/-- What a frame does to the selection, with the heights of all structures. Where a query fails,
nothing acts. -/
def next (heights : List Nat) (config : Config) (c : Cursor) (g : Surroundings) : Cursor :=
  let height := heights.getD c.structureIndex 0
  match c.acting config g with
  | .ok (some control) => (c.refreshed height g).steered heights.length height control
  | _ => c.refreshed height g

/-- One of several structures is selected, and none or one of the layers below a height. -/
structure InRange (count height : Nat) (c : Cursor) : Prop where
  index_lt : c.structureIndex < count
  layer_ge : -1 ≤ c.layer
  layer_lt : c.layer < height

variable {count height height' : Nat} {c : Cursor}

theorem InRange.refreshed (h : c.InRange count height) (height' : Nat) (g : Surroundings) :
    (c.refreshed height' g).InRange count height' := by
  obtain ⟨hindex, hge, hlt⟩ := h
  have hlayer : (c.refreshed height' g).layer =
      if (height' : Int) ≤ c.layer then (height' : Int) - 1 else c.layer := rfl
  refine ⟨hindex, ?_, ?_⟩
  · rw [hlayer]
    split_ifs <;> omega
  · rw [hlayer]
    split_ifs <;> omega

/-- No control selects a layer outside the structure. -/
theorem InRange.steered (h : c.InRange count height) (control : Control) :
    (c.steered count height control).InRange count height := by
  obtain ⟨hindex, hge, hlt⟩ := h
  cases control with
  | changeLayer =>
    have hlayer : (c.steered count height .changeLayer).layer =
        if (height : Int) ≤ c.layer + 1 then -1 else c.layer + 1 := rfl
    refine ⟨hindex, ?_, ?_⟩
    · rw [hlayer]
      split_ifs <;> omega
    · rw [hlayer]
      split_ifs <;> omega
  | decreaseLayer =>
    have hlayer : (c.steered count height .decreaseLayer).layer =
        if c.layer - 1 < -1 then (height : Int) - 1 else c.layer - 1 := rfl
    refine ⟨hindex, ?_, ?_⟩
    · rw [hlayer]
      split_ifs <;> omega
    · rw [hlayer]
      split_ifs <;> omega
  | changeStructure => exact ⟨Nat.mod_lt _ (Nat.zero_lt_of_lt hindex), hge, hlt⟩
  | _ => exact ⟨hindex, hge, hlt⟩

variable {heights : List Nat} {config : Config} {g : Surroundings}

theorem next_eq (hheight : heights[c.structureIndex]? = some height) :
    c.next heights config g =
      match c.acting config g with
      | .ok (some control) => (c.refreshed height g).steered heights.length height control
      | _ => c.refreshed height g := by
  rw [Cursor.next, List.getD_eq_getElem?_getD, hheight, Option.getD_some]

/-- A frame selects no layer outside the structure that was selected when it began. -/
theorem InRange.next (h : c.InRange heights.length height)
    (hheight : heights[c.structureIndex]? = some height') :
    (c.next heights config g).InRange heights.length height' := by
  rw [next_eq hheight]
  split
  · exact (h.refreshed height' g).steered _
  · exact h.refreshed height' g

/-- A frame selects another structure only where the item for that is held and the player sneaks. -/
theorem structureIndex_next (h : (c.next heights config g).structureIndex ≠ c.structureIndex) :
    g.sneaking.isTruthy = true ∧ g.Holds config .changeStructure := by
  unfold Cursor.next at h
  split at h
  · rename_i control hacting
    obtain ⟨hstarts, hholds⟩ := Surroundings.holds_of_acting hacting
    rw [Bool.and_eq_true] at hstarts
    cases control with
    | changeStructure => exact ⟨hstarts.1, hholds⟩
    | _ => exact absurd rfl h
  · exact absurd rfl h

/-- The variables that say what is selected and whether a control can act. -/
def tracked : List Variable :=
  [.structureIndex, .structureCount, .layer, .wasSneaking, .controlsDisabled]

/-- The variables are those of a selection of one of several structures. -/
structure Shown (count : Nat) (c : Cursor) (store : Store) : Prop where
  numeric : store.Numeric
  index : store.Counts Variable.structureIndex.name c.structureIndex
  count : store.Counts Variable.structureCount.name count
  layer : store.Counts Variable.layer.name c.layer
  sneaked : store.isOn .wasSneaking = c.sneaked
  disabled : store.isOn .controlsDisabled = c.disabled

variable {store later : Store} {functions : Functions} {structures : List (Size × Validation)}
  {entry : Size × Validation} {changed : List Variable}

/-- What changes other variables leaves the selection. -/
theorem Shown.of_agrees (h : c.Shown count store) (hnumeric : later.Numeric)
    (hagrees : store.Agrees changed later) (hout : ∀ v ∈ tracked, v ∉ changed) :
    c.Shown count later where
  numeric := hnumeric
  index := hagrees.counts (hout _ (by decide)) h.index
  count := hagrees.counts (hout _ (by decide)) h.count
  layer := hagrees.counts (hout _ (by decide)) h.layer
  sneaked := (hagrees.isOn (hout _ (by decide))).trans h.sneaked
  disabled := (hagrees.isOn (hout _ (by decide))).trans h.disabled

theorem Shown.keeps (h : c.Shown count store) {code : Code}
    (hcode : Keeps functions changed code) (hout : ∀ v ∈ tracked, v ∉ changed) :
    ∃ later, code.Leaves functions store later ∧ c.Shown count later ∧
      store.Agrees changed later := by
  obtain ⟨later, hlater, hnumeric, hagrees⟩ := hcode store h.numeric
  exact ⟨later, hlater, h.of_agrees hnumeric hagrees hout, hagrees⟩

/-- Another layer is selected, and nothing else. -/
theorem Shown.setLayer (h : c.Shown count store) (hnumeric : later.Numeric)
    (hagrees : store.Agrees [.layer] later) {y : Int}
    (hlayer : later.Counts Variable.layer.name y) : Shown count { c with layer := y } later where
  numeric := hnumeric
  index := hagrees.counts (by decide) h.index
  count := hagrees.counts (by decide) h.count
  layer := hlayer
  sneaked := (hagrees.isOn (by decide)).trans h.sneaked
  disabled := (hagrees.isOn (by decide)).trans h.disabled

/-- Whether the player sneaks is told before the frame and changes nothing else. -/
theorem Shown.sneak (h : c.Shown count store) (value : Value) :
    c.Shown count (store.insert "q.is_sneaking" value) := by
  have hvalue (v : Variable) :
      Expression.variableValue (store.insert "q.is_sneaking" value) v.name =
        Expression.variableValue store v.name := by
    rw [variableValue_insert, if_neg v.sneaking_ne_name]
  obtain ⟨hnumeric, hindex, hcount, hlayer, hsneaked, hdisabled⟩ := h
  refine ⟨fun v hv => ?_, ?_, ?_, ?_, ?_, ?_⟩
  · unfold Store.IsNumber
    rw [hvalue]
    exact hnumeric v hv
  · rwa [Store.Counts, hvalue]
  · rwa [Store.Counts, hvalue]
  · rwa [Store.Counts, hvalue]
  · rwa [Store.isOn, hvalue]
  · rwa [Store.isOn, hvalue]

/-- The layer is set where a condition holds. -/
theorem Shown.exists_leaves_guarded (h : c.Shown count store) {condition e : Expression} {p : Prop}
    [Decidable p] (hcondition : condition.settled.Decides functions store (decide p)) {y : Int}
    (hy : e.settled.Counts functions store y) :
    ∃ later, Code.Leaves functions [.branch condition [Variable.layer.set e] []] store later ∧
      Shown count { c with layer := if p then y else c.layer } later ∧
      store.Agrees [.layer] later := by
  by_cases hp : p
  · obtain ⟨later, hlater, hnumeric, hagrees, hlayer⟩ := exists_leaves_counts h.numeric hy .layer
    refine ⟨later, Code.leaves_branch hcondition ?_, h.setLayer hnumeric hagrees ?_, hagrees⟩
    · rwa [if_pos (decide_eq_true hp)]
    · rwa [if_pos hp]
  · refine ⟨store, Code.leaves_branch hcondition ?_, ?_, .refl _ store⟩
    · rw [if_neg (by simpa using hp)]
      exact Code.leaves_nil functions store
    · rwa [if_neg hp]

/-- What a frame does first: the layer is not left above the selected structure. -/
theorem Shown.exists_leaves_refresh (hnumbered : EntityScripts.Numbered structures)
    (hentry : structures[c.structureIndex]? = some entry) (h : c.Shown structures.length store) :
    ∃ later, Code.Leaves functions ((EntityScripts.frameCode config (structures.map Prod.fst)
        (structures.map Prod.snd)).take 7) store later ∧
      (c.clamped entry.1.height).Shown structures.length later ∧
      later.Counts Variable.structureHeight.name entry.1.height := by
  have hmem := List.mem_of_getElem? hentry
  have hlt := (List.getElem?_eq_some_iff.mp hentry).1
  have hlength := hnumbered.length_le
  have hextent : entry.1.height < 2 ^ 32 := hnumbered.height_lt hmem
  have hwidth : Keeps functions [.structureWidth] [Variable.structureWidth.set
      (EntityScripts.perStructure config ((structures.map Prod.fst).map (·.width)))] :=
    (EntityScripts.reckons_extent hnumbered fun _ => .head _).keeps (.head _)
  have hdepth : Keeps functions [.structureDepth] [Variable.structureDepth.set
      (EntityScripts.perStructure config ((structures.map Prod.fst).map (·.depth)))] :=
    (EntityScripts.reckons_extent hnumbered fun _ => .tail _ (.tail _ (.head _))).keeps (.head _)
  obtain ⟨wide, hwide, hshown, -⟩ := h.keeps hwidth (by decide)
  have hcounts : (EntityScripts.perStructure config
      ((structures.map Prod.fst).map (·.height))).settled.Counts functions wide
      entry.1.height := by
    intro rawValue
    have hindex := hshown.index.hasInt (by omega)
    exact ⟨_, Settings.evaluateWith_perStructure
      (hnumbered.literals_extents fun _ => .tail _ (.head _)) (by simpa using hlength)
      (by simp [hentry]) hindex rawValue, Number.isInt_ofInt (by omega)⟩
  obtain ⟨high, hhigh, hnumeric, hagrees, hheight⟩ :=
    exists_leaves_counts hshown.numeric hcounts .structureHeight
  obtain ⟨deep, hdeep, hshown, hagrees⟩ :=
    (hshown.of_agrees hnumeric hagrees (by decide)).keeps hdepth (by decide)
  have hheight := hagrees.counts (by decide) hheight
  obtain ⟨limited, hlimited, hshown, hagrees⟩ := hshown.exists_leaves_guarded
    (EntityScripts.decides_isAboveTop hshown.layer hheight)
    ((EntityScripts.counts_shifted hheight).2 (by omega))
  have hheight := hagrees.counts (by decide) hheight
  obtain ⟨later, htotals, hshown, hagrees⟩ :=
    hshown.keeps (EntityScripts.keeps_totals hnumbered) (by decide)
  exact ⟨later, hwide.cons (hhigh.cons (hdeep.cons (hlimited.cons htotals))), hshown,
    hagrees.counts (by decide) hheight⟩

/-- What the code of a control does is what the control does to the selection. -/
theorem Shown.exists_leaves_effect (hfunctions : functions.get? "math.mod" = none)
    (h : c.Shown count store) (hheight : store.Counts Variable.structureHeight.name height)
    (hrange : c.InRange count height) (hcount : count ≤ 2 ^ 53) (hlow : height < 2 ^ 32)
    (control : Control) :
    ∃ later, Code.Leaves functions (EntityScripts.effect config control) store later ∧
      (c.steered count height control).Shown count later := by
  obtain ⟨hindex, hge, hlt⟩ := hrange
  have hother (hout : ∀ v ∈ tracked, v ∉ control.changes) : ∃ later,
      Code.Leaves functions (EntityScripts.effect config control) store later ∧
        c.Shown count later := by
    obtain ⟨later, hlater, hshown, -⟩ := h.keeps (keeps_effect hfunctions config control) hout
    exact ⟨later, hlater, hshown⟩
  cases control with
  | changeLayer =>
    obtain ⟨middle, hmiddle, hnumeric, hagrees, hlayer⟩ :=
      exists_leaves_counts h.numeric ((EntityScripts.counts_shifted h.layer).1 (by omega)) .layer
    have hshown := h.setLayer hnumeric hagrees hlayer
    have habove := @EntityScripts.decides_isAboveTop functions middle _ _ hlayer
      (hagrees.counts (by decide) hheight)
    have hnone : (Expression.int (-1)).settled.Counts functions middle (-1) :=
      Expression.counts_int (by decide)
    obtain ⟨later, hlater, hshown, -⟩ := hshown.exists_leaves_guarded habove hnone
    exact ⟨later, hmiddle.cons hlater, hshown⟩
  | decreaseLayer =>
    obtain ⟨middle, hmiddle, hnumeric, hagrees, hlayer⟩ :=
      exists_leaves_counts h.numeric ((EntityScripts.counts_shifted h.layer).2 (by omega)) .layer
    have hshown := h.setLayer hnumeric hagrees hlayer
    have hbelow : (Variable.layer.compare .less (-1)).settled.Decides functions middle
        (decide (c.layer - 1 < -1)) :=
      Expression.Counts.compare (show BinaryOperator.less.onInts? = _ from rfl)
        (Expression.counts_name hlayer) (Expression.counts_int (by decide))
    obtain ⟨later, hlater, hshown, -⟩ := hshown.exists_leaves_guarded hbelow
      ((EntityScripts.counts_shifted (hagrees.counts (by decide) hheight)).2 (by omega))
    exact ⟨later, hmiddle.cons hlater, hshown⟩
  | changeStructure =>
    have hnext : (Expression.call "math.mod"
        [EntityScripts.shifted .add .structureIndex, Variable.structureCount.get]).settled.Counts
          functions store ((c.structureIndex + 1) % count : Nat) := by
      have hmod := Expression.Counts.remainder hfunctions
        ((EntityScripts.counts_shifted h.index).1 (by omega)) (Expression.counts_name h.count)
        (by omega) (by omega)
      rw [Int.natCast_mod, ← Int.tmod_eq_emod_of_nonneg (by omega)]
      exact_mod_cast hmod
    obtain ⟨later, hlater, hnumeric, hagrees, hindex⟩ :=
      exists_leaves_counts h.numeric hnext .structureIndex
    exact ⟨later, hlater, hnumeric, hindex, hagrees.counts (by decide) h.count,
      hagrees.counts (by decide) h.layer, (hagrees.isOn (by decide)).trans h.sneaked,
      (hagrees.isOn (by decide)).trans h.disabled⟩
  | disablePlayerControls =>
    have hnot : Variable.controlsDisabled.negation.settled.Counts functions store
        (if c.disabled then 0 else 1) :=
      h.disabled ▸ (Expression.decides_name Variable.controlsDisabled.name).counts_not
    obtain ⟨later, hlater, hnumeric, hagrees, htoggled⟩ :=
      exists_leaves_counts h.numeric hnot .controlsDisabled
    refine ⟨later, hlater, hnumeric, hagrees.counts (by decide) h.index,
      hagrees.counts (by decide) h.count, hagrees.counts (by decide) h.layer,
      (hagrees.isOn (by decide)).trans h.sneaked, ?_⟩
    rw [htoggled.isOn]
    cases hdisabled : c.disabled <;> simp [steered, hdisabled]
  | _ => exact hother (by decide)

/-- The note that a control was used changes nothing of the selection. -/
theorem Shown.exists_leaves_action (hfunctions : functions.get? "math.mod" = none)
    (h : c.Shown count store) (hheight : store.Counts Variable.structureHeight.name height)
    (hrange : c.InRange count height) (hcount : count ≤ 2 ^ 53) (hlow : height < 2 ^ 32)
    (control : Control) :
    ∃ later, Code.Leaves functions (EntityScripts.action config control) store later ∧
      (c.steered count height control).Shown count later := by
  have hnote : Keeps functions [.lastAction]
      [EntityScripts.start .lastAction control.actionId] := keeps_start (.head _) _
  obtain ⟨middle, hmiddle, hshown, hagrees⟩ := h.keeps hnote (by decide)
  obtain ⟨later, hlater, hshown⟩ := hshown.exists_leaves_effect hfunctions
    (hagrees.counts (by decide) hheight) hrange hcount hlow control
  exact ⟨later, hmiddle.cons hlater, hshown⟩

end Cursor
end Hologram
