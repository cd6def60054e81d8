import Hologram.Proofs.Pack.Changes
import Hologram.Proofs.Pack.Frames

/-! Held items act only in the frame in which the player starts to sneak, and while the controls are
disabled only the control acts that enables them again. -/
namespace Hologram

open Script

namespace Tick

def sneaks (tick : Tick) : Bool :=
  Value.isTruthy (.number tick.sneaking)

/-- In a frame an item is held that a control takes: the query for it is true. -/
def Holds (tick : Tick) (config : Config) (control : Control) : Prop :=
  ∀ store, ∃ value, Expression.evaluateText tick.functions store
    ((config.criteria control).code heldItemSlot) = .ok value ∧ value.isTruthy = true

/-- In every frame it is decided which items are held, as the queries for them say. -/
theorem exists_held {config : Config} (hconfig : config.Quotable) (tick : Tick) :
    ∃ held : Control → Bool, (∀ control store,
        (EntityScripts.holds config control).settled.Decides tick.functions store (held control)) ∧
      ∀ control, held control = true → tick.Holds config control := by
  obtain ⟨held, hheld⟩ := EntityScripts.exists_held hconfig tick.answersNumbers_name
    tick.answersNumbers_tag
  refine ⟨held, hheld, fun control htrue store => ?_⟩
  have hfaithful := ItemCriteria.faithful_expression (hconfig control)
    (show '\'' ∉ heldItemSlot.toList by decide)
  have hread := hfaithful.ofText_eq
  rw [ItemCriteria.text_expression] at hread
  obtain ⟨value, hvalue, htruthy⟩ :=
    hheld control store (Expression.evaluateText tick.functions store)
  rw [EntityScripts.holds, Expression.evaluateWith_settled_raw hread] at hvalue
  exact ⟨value, hvalue, htruthy.trans htrue⟩

end Tick

namespace Variable

/-- The variables that only held items change. -/
def controlled : List Variable := [
  .rendering, .validating, .showTint, .opacity, .layerMode, .offsetY, .rotation, .structureIndex,
  .controlsDisabled, .backupSlot, .lastAction]

/-- The variables that every frame sets anew before a held item acts. -/
def followers : List Variable := [
  .structureWidth, .structureHeight, .structureDepth, .layer, .blocksToValidate,
  .blocksToValidateInLayer, .savingBackup]

/-- The variables that a held item can change, by whether the player starts to sneak, whether the
item is the one that disables the controls, and whether they are disabled. -/
def reachable (starts disables disabled : Bool) : List Variable :=
  if starts then
    if disables then [.lastAction, .controlsDisabled] else if disabled then [] else steered
  else []

end Variable

theorem Variable.of_mem_reachable {starts disables disabled : Bool} {v : Variable}
    (h : v ∈ reachable starts disables disabled) : starts = true ∧
      (disabled = true → disables = true ∧ (v = .controlsDisabled ∨ v = .lastAction)) := by
  cases starts with
  | false => contradiction
  | true =>
    refine ⟨rfl, ?_⟩
    rintro rfl
    cases disables with
    | false => contradiction
    | true => simpa [reachable, or_comm] using h

namespace Script.Store

/-- Whether a variable counts as true. -/
def isOn (store : Store) (v : Variable) : Bool :=
  (Expression.variableValue store v.name).isTruthy

theorem Counts.isOn {store : Store} {v : Variable} {n : Int} (h : store.Counts v.name n) :
    store.isOn v = decide (n ≠ 0) := by
  obtain ⟨x, hx, hint⟩ := h
  have hzero : Number.IsInt 0.0 0 := Number.isInt_ofInt (a := 0) (by decide)
  rw [Store.isOn, hx, Value.isTruthy, bne, hint.beq hzero, decide_not]

theorem Agrees.isOn {changed : List Variable} {store later : Store} (h : Agrees changed store later)
    {v : Variable} (hv : v ∉ changed) : later.isOn v = store.isOn v := by
  rw [Store.isOn, Store.isOn, Expression.variableValue, Expression.variableValue, h.get? hv]

end Script.Store

namespace EntityScripts

variable {config : Config} {structures : List (Size × Validation)} {functions : Functions}
  {held : Control → Bool}

theorem reckons_perStructure {numbers : List Nat} (hlength : numbers.length ≤ 2 ^ 53)
    (h : Lookup.Literals numbers) : Reckons functions (perStructure config numbers) :=
  fun _ hstore => (Lookup.isNumberCode_numbers Variable.structureIndex.isName_name
    (hstore _ (.inl rfl)) _ hlength h).settled_raw

theorem reckons_extent (h : Numbered structures) {extent : Size → Nat}
    (hextent : ∀ size : Size, extent size ∈ size.extents) :
    Reckons functions (perStructure config ((structures.map Prod.fst).map extent)) :=
  reckons_perStructure (by simpa using h.length_le) (h.literals_extents hextent)

theorem reckons_totals (h : Numbered structures) : Reckons functions (perStructure config
    ((structures.map Prod.snd).map fun validation => validation.blocks.length)) :=
  reckons_perStructure (by simpa using h.length_le) h.literals_totals

theorem reckons_counts (h : Numbered structures) :
    Reckons functions (perLayer config ((structures.map Prod.snd).map (·.counts))) :=
  fun _ hstore => (Lookup.isNumberCode_rows Variable.structureIndex.isName_name
    Variable.layer.isName_name (hstore _ (.inl rfl)) (hstore _ (.inl rfl)) _
    (by simpa using h.length_le) h.literals_counts).settled_raw

/-- After the layer is clamped, a frame sets the totals anew and notes that no backup is saved. -/
theorem keeps_totals (h : Numbered structures) :
    Keeps functions [.blocksToValidate, .blocksToValidateInLayer, .savingBackup]
      (((frameCode config (structures.map Prod.fst) (structures.map Prod.snd)).drop 4).take 3) := by
  refine Keeps.cons ((reckons_totals h).keeps (by decide)) ?_
  exact Keeps.cons ((reckons_counts h).keeps (by decide)) (keeps_start (by decide) 0)

/-- What a frame does first changes only variables that it sets anew. -/
theorem keeps_refresh (h : Numbered structures) :
    Keeps functions Variable.followers
      ((frameCode config (structures.map Prod.fst) (structures.map Prod.snd)).take 7) := by
  refine Keeps.cons ((reckons_extent h fun _ => .head _).keeps (by decide)) ?_
  refine Keeps.cons ((reckons_extent h fun _ => .tail _ (.head _)).keeps (by decide)) ?_
  refine Keeps.cons ((reckons_extent h fun _ => .tail _ (.tail _ (.head _))).keeps (by decide)) ?_
  refine Keeps.cons (asks_isAboveTop.keeps (keeps_selectTop (by decide)) keeps_nil) ?_
  exact (keeps_totals h).mono (by decide)

/-- It is noted whether the player starts to sneak, and then whether he sneaks. -/
theorem exists_leaves_sneaking {store : Store} (hstore : store.Numeric) {told : Value}
    (hsneaking : Expression.variableValue store "q.is_sneaking" = told) :
    ∃ later, Code.Leaves functions [
        Variable.sneakStarted.set (.binary .and sneaking Variable.wasSneaking.negation),
        Variable.wasSneaking.set sneaking] store later ∧
      later.Numeric ∧ store.Agrees [.sneakStarted, .wasSneaking] later ∧
      later.isOn .sneakStarted = (told.isTruthy && !store.isOn .wasSneaking) ∧
      later.isOn .wasSneaking = told.isTruthy := by
  have hsneaks := @Expression.decides_name functions store "q.is_sneaking"
  rw [hsneaking] at hsneaks
  have hstarts : (Expression.binary .and sneaking Variable.wasSneaking.negation).settled.Decides
      functions store (told.isTruthy && !store.isOn .wasSneaking) :=
    hsneaks.and (Expression.decides_name Variable.wasSneaking.name).not
  obtain ⟨value, hvalue, htruthy⟩ := hstarts (Expression.evaluateText functions store)
  let middle : Store := store.insert Variable.sneakStarted.name value
  have hstill : sneaking.settled.evaluate functions middle = .ok told := by
    change Expression.evaluateWith functions middle _ (.name "q.is_sneaking") = _
    rw [Expression.evaluateWith_name, variableValue_insert, if_neg (by decide), hsneaking]
  refine ⟨_, (Code.leaves_assign hvalue).cons (Code.leaves_assign hstill),
    (hstore.insert_asked (v := .sneakStarted) rfl value).insert_asked (v := .wasSneaking) rfl told,
    (store.agrees_insert (.head _) value).trans
      (middle.agrees_insert (v := .wasSneaking) (.tail _ (.head _)) _), ?_, ?_⟩
  · rw [Store.isOn, variableValue_insert, if_neg (by decide), variableValue_insert, if_pos rfl]
    exact htruthy
  · rw [Store.isOn, variableValue_insert, if_pos rfl]

/-- What a held item changes is in reach. -/
theorem exists_leaves_actions (hfunctions : functions.get? "math.mod" = none)
    (hheld : ∀ control store, (holds config control).settled.Decides functions store (held control))
    {store : Store} (hstore : store.Numeric) :
    ∃ later, Code.Leaves functions [actions config] store later ∧ later.Numeric ∧
      store.Agrees (Variable.reachable (store.isOn .sneakStarted) (held .disablePlayerControls)
        (store.isOn .controlsDisabled)) later := by
  have hstarts := @Expression.decides_name functions store Variable.sneakStarted.name
  have hwhen {c : Expression} {p : Bool} (hc : c.settled.Decides functions store p) :
      (whenSneakStarted c).settled.Decides functions store (store.isOn .sneakStarted && p) := by
    rw [whenSneakStarted, Expression.settled_binary]
    exact hstarts.and hc
  have hfree : Variable.controlsDisabled.negation.settled.Decides functions store
      (!store.isOn .controlsDisabled) :=
    (Expression.decides_name Variable.controlsDisabled.name).not
  have houter {later : Store} := @Code.leaves_branch functions store later _
    (action config .disablePlayerControls)
    [.branch (whenSneakStarted Variable.controlsDisabled.negation)
      (firstAction config ordinaryControls) []] _ (hwhen (hheld .disablePlayerControls store))
  have hinner {later : Store} := @Code.leaves_branch functions store later _
    (firstAction config ordinaryControls) [] _ (hwhen hfree)
  unfold Variable.reachable
  cases hstarted : store.isOn .sneakStarted with
  | false =>
    simp only [hstarted, Bool.false_and, Bool.false_eq_true, if_false] at houter hinner ⊢
    exact ⟨store, houter (hinner (Code.leaves_nil ..)), hstore, .refl _ _⟩
  | true =>
    simp only [hstarted, Bool.true_and, if_true] at houter hinner ⊢
    cases hdisables : held .disablePlayerControls with
    | true =>
      simp only [hdisables, if_true] at houter ⊢
      obtain ⟨later, hlater, hkept⟩ :=
        keeps_action hfunctions config .disablePlayerControls store hstore
      exact ⟨later, houter hlater, hkept⟩
    | false =>
      simp only [hdisables, Bool.false_eq_true, if_false] at houter ⊢
      cases hdisabled : store.isOn .controlsDisabled with
      | true =>
        simp only [hdisabled, Bool.not_true, Bool.false_eq_true, if_false, if_true] at hinner ⊢
        exact ⟨store, houter (hinner (Code.leaves_nil ..)), hstore, .refl _ _⟩
      | false =>
        simp only [hdisabled, Bool.not_false, Bool.false_eq_true, if_true, if_false] at hinner ⊢
        obtain ⟨later, hlater, hkept⟩ := keeps_firstAction hfunctions config
          (fun control store _ => ⟨_, hheld control store⟩) ordinaryControls store hstore
        exact ⟨later, houter (hinner hlater), hkept⟩

/-- The variables are numbers, and it is noted whether the player sneaked last. -/
structure Follows (sneaked : Bool) (store : Store) : Prop where
  numeric : store.Numeric
  noted : store.isOn .wasSneaking = sneaked

/-- What the first script leaves is numbers, and no sneaking is noted. -/
theorem follows_setup (hfits : config.Fits) {count : Nat} {first : Size} (hcount : count < 2 ^ 31)
    (hfirst : ∀ n ∈ first.extents, n < 2 ^ 32) (store : Store) :
    Follows false (store.setAll (starts config count first)) := by
  obtain ⟨s, sneaks, hstarted, hshown⟩ := Settings.exists_started hfits hcount hfirst store
  refine ⟨fun v hv => ?_, ?_⟩
  · have hshows := hshown.shows v
    rcases hv with hv | hv
    · obtain ⟨x, hx, -⟩ := (Variable.shows_counted hv).mp hshows
      exact ⟨x, hx⟩
    · rwa [Variable.Shows, hv] at hshows
  · have hzero : s .wasSneaking = 0 := hstarted _ _ rfl
    have hshows := (Variable.shows_asked rfl).mp (hshown.shows .wasSneaking)
    rwa [hzero] at hshows

variable (hconfig : config.Quotable) (hfits : config.Fits) (hwritable : Writable structures)
  {scripts : EntityScripts} (hscripts : scripts.frame =
    frameCode config (structures.map Prod.fst) (structures.map Prod.snd))

include hconfig hfits hwritable hscripts

/-- A frame comes to its end, and it changes no variable that only held items change unless it is in
reach of the item that is held. -/
theorem Follows.runFrame {sneaked : Bool} {store : Store} (h : Follows sneaked store)
    (tick : Tick) : ∃ later disables, scripts.runFrame tick store = (.ok none, later) ∧
      Follows tick.sneaks later ∧
      (disables = true → tick.Holds config .disablePlayerControls) ∧
      ∀ v ∈ Variable.controlled,
        v ∉ Variable.reachable (tick.sneaks && !sneaked) disables (store.isOn .controlsDisabled) →
        later.get? v.name = store.get? v.name := by
  obtain ⟨held, hheld, hholds⟩ := tick.exists_held hconfig
  let begun : Store := store.insert "q.is_sneaking" (.number tick.sneaking)
  have hbegun (v : Variable) : begun.get? v.name = store.get? v.name := by
    rw [Dictionary.get?_insert, if_neg v.sneaking_ne_name]
  have hon (v : Variable) : begun.isOn v = store.isOn v := by
    rw [Store.isOn, Store.isOn, Expression.variableValue, Expression.variableValue, hbegun]
  obtain ⟨refreshed, hrefresh, hnumeric, hagrees⟩ :=
    keeps_refresh hwritable.numbered begun (h.numeric.insert _ tick.sneaking)
  have hsneaking : Expression.variableValue refreshed "q.is_sneaking" = .number tick.sneaking := by
    rw [hagrees.variableValue (by decide), variableValue_insert, if_pos rfl]
  obtain ⟨noted, hnote, hnumeric', hagrees', hstarts, hsneaks⟩ :=
    @exists_leaves_sneaking tick.functions _ hnumeric _ hsneaking
  obtain ⟨later, hact, hnumeric'', hagrees''⟩ :=
    @exists_leaves_actions config tick.functions held tick.functions_mod hheld _ hnumeric'
  have hunsteered : ∀ starts disables disabled,
      Variable.wasSneaking ∉ Variable.reachable starts disables disabled := by decide
  rw [hstarts, hagrees.isOn (by decide), hon, h.noted, hagrees'.isOn (by decide),
    hagrees.isOn (by decide), hon] at hagrees''
  refine ⟨later, held .disablePlayerControls, ?_, ⟨hnumeric'', ?_⟩, hholds _, fun v hv hout => ?_⟩
  · unfold EntityScripts.runFrame
    rw [hscripts]
    exact (hrefresh.append (hnote.append hact)).executeText
      (readable_frameCode hconfig hfits hwritable.numbered)
  · rw [hagrees''.isOn (hunsteered _ _ _), hsneaks]
    rfl
  · have hapart : ∀ v ∈ Variable.controlled,
        v ∉ Variable.followers ∧ v ∉ [Variable.sneakStarted, .wasSneaking] := by decide
    rw [hagrees''.get? hout, hagrees'.get? (hapart v hv).2, hagrees.get? (hapart v hv).1, hbegun]

/-- Frame after frame it is noted whether the player sneaked in the last one. -/
theorem Follows.runFrames {store : Store} (h : Follows false store) (ticks : List Tick) :
    Follows (ticks.getLast?.any Tick.sneaks) (scripts.runFrames ticks store) := by
  induction ticks using List.reverseRecOn with
  | nil => exact h
  | append_singleton ticks tick ih =>
    obtain ⟨later, -, hrun, hlater, -⟩ := ih.runFrame hconfig hfits hwritable hscripts tick
    have hstep : scripts.runFrames (ticks ++ [tick]) store =
        (scripts.runFrame tick (scripts.runFrames ticks store)).2 := by
      rw [EntityScripts.runFrames, List.foldl_concat]
      rfl
    rw [hstep, hrun, List.getLast?_concat]
    exact hlater

omit hconfig hfits hwritable hscripts

/-- Whatever the player does, frame after frame comes to its end. A variable that only held items
change is changed by a frame only if the player starts to sneak in it. While the controls are
disabled, it is also the item for that control which is held, and nothing is changed but whether
they are disabled and which control acted last. -/
theorem change_of_sneak_start (config : Config) (structures : List (Size × Validation))
    (hconfig : config.Quotable) (hfits : config.Fits) (hstructures : structures ≠ [])
    (hwritable : Writable structures) (functions : Functions) (store : Store) :
    ∃ scripts started,
      ofStructures config (structures.map Prod.fst) (structures.map Prod.snd) = .ok scripts ∧
      Program.executeText functions scripts.setup.text store = (.ok none, started) ∧
      ∀ (ticks : List Tick) (tick : Tick), ∃ later,
        scripts.runFrame tick (scripts.runFrames ticks started) = (.ok none, later) ∧
        ∀ v ∈ Variable.controlled,
          later.get? v.name ≠ (scripts.runFrames ticks started).get? v.name →
          (tick.sneaks = true ∧
            ∀ previous, ticks.getLast? = some previous → previous.sneaks = false) ∧
          ((scripts.runFrames ticks started).isOn .controlsDisabled = true →
            tick.Holds config .disablePlayerControls ∧
              (v = .controlsDisabled ∨ v = .lastAction)) := by
  obtain ⟨first, rest, rfl⟩ := List.exists_cons_of_ne_nil hstructures
  have hfirst : ∀ n ∈ first.1.extents, n < 2 ^ 32 := (hwritable.fits first (.head _)).extents_lt
  let scripts : EntityScripts := ⟨setupCode config (first :: rest).length first.1,
    frameCode config ((first :: rest).map Prod.fst) ((first :: rest).map Prod.snd)⟩
  have hframe : scripts.frame =
      frameCode config ((first :: rest).map Prod.fst) ((first :: rest).map Prod.snd) := rfl
  refine ⟨scripts, _, ?_, executeText_setupCode hfits hwritable.length_lt hfirst functions store,
    fun ticks tick => ?_⟩
  · simp [ofStructures, scripts]
  · have hfollows := (follows_setup hfits hwritable.length_lt hfirst store).runFrames hconfig hfits
      hwritable hframe ticks
    obtain ⟨later, disables, hrun, -, hholds, hkept⟩ :=
      hfollows.runFrame hconfig hfits hwritable hframe tick
    refine ⟨later, hrun, fun v hv hchanged => ?_⟩
    obtain ⟨hstarts, hdisabled⟩ :=
      Variable.of_mem_reachable (not_not.mp fun hout => hchanged (hkept v hv hout))
    rw [Bool.and_eq_true, Bool.not_eq_true'] at hstarts
    refine ⟨⟨hstarts.1, fun previous hprevious => ?_⟩, fun hon => ?_⟩
    · have hlast := hstarts.2
      rwa [hprevious] at hlast
    · obtain ⟨hdisables, hcases⟩ := hdisabled hon
      exact ⟨hholds hdisables, hcases⟩

/-- Without a slot for backups and with two structures, the selected structure changes only when the
player starts to sneak while the controls are not disabled. -/
theorem change_of_sneak_start_unslotted : ∃ scripts started,
    ofStructures { Config.standard with backupSlotCount := 0 } [⟨1, 1, 1⟩, ⟨3, 2, 1⟩]
      [⟨[], [0]⟩, ⟨[], [0, 0]⟩] = .ok scripts ∧
    Program.executeText [] scripts.setup.text [] = (.ok none, started) ∧
    ∀ (ticks : List Tick) (tick : Tick), ∃ later,
      scripts.runFrame tick (scripts.runFrames ticks started) = (.ok none, later) ∧
      (later.get? "v.hologram.structure_index" ≠
          (scripts.runFrames ticks started).get? "v.hologram.structure_index" →
        tick.sneaks = true ∧
          (scripts.runFrames ticks started).isOn .controlsDisabled = false) := by
  have hwritable : Writable [(⟨1, 1, 1⟩, ⟨[], [0]⟩), (⟨3, 2, 1⟩, ⟨[], [0, 0]⟩)] := by
    refine ⟨by decide, List.forall_mem_cons.mpr ⟨⟨?_, by decide, ?_, by decide⟩,
      List.forall_mem_singleton.mpr ⟨?_, by decide, ?_, by decide⟩⟩⟩ <;> decide
  have hconfig : Config.Quotable { Config.standard with backupSlotCount := 0 } := by
    intro control
    cases control <;> decide
  obtain ⟨scripts, started, hscripts, hsetup, hruns⟩ := change_of_sneak_start
    { Config.standard with backupSlotCount := 0 }
    [(⟨1, 1, 1⟩, ⟨[], [0]⟩), (⟨3, 2, 1⟩, ⟨[], [0, 0]⟩)] hconfig ⟨by decide, by decide⟩ (by decide)
    hwritable [] []
  refine ⟨scripts, started, hscripts, hsetup, fun ticks tick => ?_⟩
  obtain ⟨later, hrun, hchange⟩ := hruns ticks tick
  refine ⟨later, hrun, fun hchanged => ?_⟩
  obtain ⟨⟨hsneaks, -⟩, hdisabled⟩ := hchange .structureIndex (by decide) hchanged
  refine ⟨hsneaks, Bool.eq_false_iff.mpr fun hon => ?_⟩
  obtain ⟨-, hcases⟩ := hdisabled hon
  simp at hcases

end EntityScripts
end Hologram
