import Hologram.Proofs.Pack.Starting

/-! Runs of the scripts: the first script once, then the second in frame after frame. Whatever the
player does, no variable leaves its range. -/
namespace Hologram

open Script

/-- What the game tells the scripts in a frame: whether the player sneaks, as a number, and the
answers to the queries for held items. -/
structure Tick where
  sneaking : Float
  itemName : List Value → Float
  itemTag : List Value → Float

namespace Tick

def functions (tick : Tick) : Functions := [
  (ItemCriteria.nameQuery, fun arguments => .ok (.number (tick.itemName arguments))),
  (ItemCriteria.tagQuery, fun arguments => .ok (.number (tick.itemTag arguments)))]

theorem answersNumbers_name (tick : Tick) :
    ItemCriteria.AnswersNumbers tick.functions ItemCriteria.nameQuery :=
  fun arguments => ⟨tick.itemName arguments, rfl⟩

theorem answersNumbers_tag (tick : Tick) :
    ItemCriteria.AnswersNumbers tick.functions ItemCriteria.tagQuery :=
  fun arguments => ⟨tick.itemTag arguments, rfl⟩

theorem functions_mod (tick : Tick) : tick.functions.get? "math.mod" = none := rfl

end Tick

namespace EntityScripts

def runFrame (scripts : EntityScripts) (tick : Tick) (store : Store) :
    Except EvalError (Option Value) × Store :=
  Program.executeText tick.functions scripts.frame.text
    (store.insert "q.is_sneaking" (.number tick.sneaking))

def runFrames (scripts : EntityScripts) (ticks : List Tick) (store : Store) : Store :=
  ticks.foldl (fun store tick => (scripts.runFrame tick store).2) store

end EntityScripts

namespace Variable

def ranged : List Variable := [
  .rendering, .validating, .showTint, .controlsDisabled, .layerMode, .opacity, .rotation,
  .structureIndex, .structureCount, .structureHeight, .layer, .backupSlot, .lastAction]

end Variable

namespace Settings

variable {config : Config} {structures : List (Size × Validation)} {s : Settings} {store : Store}
  {sneaks : Bool} {slots count height : Nat}

theorem InRange.natAbs_le (h : s.InRange slots count height) (hslots : slots < 2 ^ 32)
    (hcount : count < 2 ^ 32) (hheight : height < 2 ^ 32) {v : Variable}
    (hv : v ∈ Variable.ranged) : v.kind = .counted ∧ (s v).natAbs ≤ 2 ^ 53 := by
  have hkinds : ∀ v ∈ Variable.ranged, v.kind = .counted := by decide
  refine ⟨hkinds v hv, ?_⟩
  have hrange := h v
  cases v with
  | lastAction =>
    obtain ⟨entry, hentry, heq⟩ := hrange
    have hactions : ∀ entry ∈ actionIds, entry.2 ≤ 12 := by decide
    have hle := hactions entry hentry
    omega
  | structureWidth | structureDepth | savingBackup | wasSneaking | sneakStarted | offsetX | offsetY
  | offsetZ | blocksToValidate | blocksToValidateInLayer => contradiction
  | _ =>
    simp only [Variable.InRange] at hrange
    omega

def Kept (config : Config) (count height : Nat) (store : Store) : Prop :=
  ∃ (s : Settings) (sneaks : Bool), s.InRange config.backupSlotCount count height ∧
    s.Shown sneaks store

theorem Kept.exists_hasInt (h : Kept config count height store)
    (hfits : config.Fits) (hcount : count < 2 ^ 32) (hheight : height < 2 ^ 32) {v : Variable}
    (hv : v ∈ Variable.ranged) :
    ∃ n, store.HasInt v.name n ∧ v.InRange config.backupSlotCount count height n := by
  obtain ⟨s, sneaks, hrange, hshown⟩ := h
  obtain ⟨hkind, hn⟩ := hrange.natAbs_le hfits.slots_lt hcount hheight hv
  exact ⟨s v, hshown.hasInt hkind rfl hn, hrange v⟩

/-- What the first script leaves is in the ranges of the first structure. -/
theorem kept_setup (hfits : config.Fits) {first : Size} (hcount : 0 < count)
    (hcount' : count < 2 ^ 31) (hfirst : ∀ n ∈ first.extents, n < 2 ^ 32) (functions : Functions)
    (store : Store) : ∃ started,
      Program.executeText functions (EntityScripts.setupCode config count first).text store =
        (.ok none, started) ∧ Kept config count first.height started := by
  obtain ⟨s, sneaks, hstarted, hshown⟩ := exists_started hfits hcount' hfirst store
  exact ⟨_, EntityScripts.executeText_setupCode hfits hcount' hfirst functions store, s, sneaks,
    hstarted.inRange hcount _, hshown⟩

variable (hconfig : config.Quotable) (hslots : 0 < config.backupSlotCount) (hfits : config.Fits)
  (hwritable : EntityScripts.Writable structures)
  {scripts : EntityScripts} (hscripts : scripts.frame =
    EntityScripts.frameCode config (structures.map Prod.fst) (structures.map Prod.snd))

include hconfig hslots hfits hwritable hscripts

/-- A frame comes to its end, and it leaves the variables in the ranges of the structure that was
selected when it began. -/
theorem Kept.runFrame (h : Kept config structures.length height store) (hheight : height < 2 ^ 32)
    (tick : Tick) : ∃ i entry later, structures[i]? = some entry ∧
      store.HasInt Variable.structureIndex.name (i : Nat) ∧
      scripts.runFrame tick store = (.ok none, later) ∧
      Kept config structures.length entry.1.height later := by
  obtain ⟨s, sneaks, hrange, hshown⟩ := h
  have hindex : 0 ≤ s .structureIndex ∧ s .structureIndex < structures.length :=
    hrange .structureIndex
  have hlayer : -1 ≤ s .layer ∧ s .layer < height := hrange .layer
  have hcount : structures.length < 2 ^ 31 := hwritable.length_lt
  obtain ⟨i, hi⟩ := Int.eq_ofNat_of_zero_le hindex.1
  have hlt : i < structures.length := by omega
  have hentry : structures[i]? = some structures[i] := List.getElem?_eq_getElem hlt
  have hextent : structures[i].1.height < 2 ^ 32 := hwritable.height_lt (List.getElem_mem hlt)
  let sneaks' := Value.isTruthy (.number tick.sneaking)
  obtain ⟨held, hheld⟩ := @decides_holds tick.functions sneaks' config hconfig
    tick.answersNumbers_name tick.answersNumbers_tag
  obtain ⟨inLayer, hturns, -⟩ := @exists_turns_refreshed tick.functions sneaks' config s structures
    structures[i].1 structures[i].2 i hwritable hi hentry (by omega)
  have hrefreshed := hrange.refreshed sneaks' structures[i].1 structures[i].2.blocks.length inLayer
  have hactions := turns_actions tick.functions_mod
    ⟨hslots, hfits.slots_lt, by omega, hextent⟩ hrefreshed (hheld _)
  obtain ⟨later, hlater, hshown'⟩ := hturns _ hactions _ (hshown.sneak (.number tick.sneaking))
  refine ⟨i, _, later, hentry, ?_, ?_, _, _, hrefreshed.reacted hslots, hshown'⟩
  · exact hshown.hasInt rfl hi (by omega)
  · unfold EntityScripts.runFrame
    rw [hscripts]
    exact hlater.executeText (EntityScripts.readable_frameCode hconfig hfits hwritable.numbered)

/-- Frame after frame the variables are in the ranges of some structure. -/
theorem Kept.runFrames (h : Kept config structures.length height store) (hheight : height < 2 ^ 32)
    (ticks : List Tick) : ∃ height < 2 ^ 32,
      Kept config structures.length height (scripts.runFrames ticks store) := by
  induction ticks generalizing store height with
  | nil => exact ⟨height, hheight, h⟩
  | cons tick ticks ih =>
    obtain ⟨i, entry, later, hentry, -, hrun, hlater⟩ :=
      h.runFrame hconfig hslots hfits hwritable hscripts hheight tick
    have hextent : entry.1.height < 2 ^ 32 := hwritable.height_lt (List.mem_of_getElem? hentry)
    have hstep : scripts.runFrames (tick :: ticks) store = scripts.runFrames ticks later := by
      change scripts.runFrames ticks (scripts.runFrame tick store).2 = _
      rw [hrun]
    rw [hstep]
    exact ih hlater hextent

end Settings

namespace EntityScripts

/-- Whatever the player does, the first script and then frame after frame of the second come to
their ends. After each frame all variables that have a range are in it, where the layer is one of
the structure that was selected when the frame began. -/
theorem runFrames_inRange (config : Config) (structures : List (Size × Validation))
    (hconfig : config.Quotable) (hslots : 1 ≤ config.backupSlotCount) (hfits : config.Fits)
    (hstructures : structures ≠ []) (hwritable : Writable structures) (functions : Functions)
    (store : Store) :
    ∃ scripts started,
      ofStructures config (structures.map Prod.fst) (structures.map Prod.snd) = .ok scripts ∧
      Program.executeText functions scripts.setup.text store = (.ok none, started) ∧
      ∀ (ticks : List Tick) (tick : Tick), ∃ (i : Nat) (entry : Size × Validation) (later : Store),
        structures[i]? = some entry ∧
        (scripts.runFrames ticks started).HasInt Variable.structureIndex.name i ∧
        scripts.runFrame tick (scripts.runFrames ticks started) = (.ok none, later) ∧
        ∀ v ∈ Variable.ranged, ∃ n, later.HasInt v.name n ∧
          v.InRange config.backupSlotCount structures.length entry.1.height n := by
  obtain ⟨first, rest, rfl⟩ := List.exists_cons_of_ne_nil hstructures
  have hfirst : ∀ n ∈ first.1.extents, n < 2 ^ 32 := (hwritable.fits first (.head _)).extents_lt
  have hheight : first.1.height < 2 ^ 32 := hfirst _ (.tail _ (.head _))
  have hlength : (first :: rest).length < 2 ^ 31 := hwritable.length_lt
  obtain ⟨started, hsetup, hkept⟩ := Settings.kept_setup hfits (Nat.succ_pos rest.length) hlength
    hfirst functions store
  let scripts : EntityScripts := ⟨setupCode config (first :: rest).length first.1,
    frameCode config ((first :: rest).map Prod.fst) ((first :: rest).map Prod.snd)⟩
  have hframe : scripts.frame =
      frameCode config ((first :: rest).map Prod.fst) ((first :: rest).map Prod.snd) := rfl
  refine ⟨scripts, started, ?_, hsetup, ?_⟩
  · simp [ofStructures, scripts]
  · intro ticks tick
    obtain ⟨height, hlt, hruns⟩ :=
      hkept.runFrames hconfig hslots hfits hwritable hframe hheight ticks
    obtain ⟨i, entry, later, hentry, hindex, hrun, hlater⟩ :=
      hruns.runFrame hconfig hslots hfits hwritable hframe hlt tick
    have hextent : entry.1.height < 2 ^ 32 := hwritable.height_lt (List.mem_of_getElem? hentry)
    refine ⟨i, entry, later, hentry, hindex, hrun, fun v hv => ?_⟩
    exact hlater.exists_hasInt hfits (by omega) hextent hv

/-- With the standard settings and one structure of two layers the layer is always one of them, or
none. -/
theorem runFrames_inRange_standard : ∃ scripts started,
    ofStructures .standard [⟨3, 2, 1⟩] [⟨[], [0, 0]⟩] = .ok scripts ∧
    Program.executeText [] scripts.setup.text [] = (.ok none, started) ∧
    ∀ (ticks : List Tick) (tick : Tick), ∃ later n,
      scripts.runFrame tick (scripts.runFrames ticks started) = (.ok none, later) ∧
      later.HasInt "v.hologram.layer" n ∧ -1 ≤ n ∧ n < 2 := by
  have hwritable : Writable [(⟨3, 2, 1⟩, ⟨[], [0, 0]⟩)] := by
    refine ⟨by decide, List.forall_mem_singleton.mpr ⟨?_, by decide, ?_, by decide⟩⟩
    · decide
    · decide
  obtain ⟨scripts, started, hscripts, hsetup, hruns⟩ := runFrames_inRange .standard
    [(⟨3, 2, 1⟩, ⟨[], [0, 0]⟩)] Config.quotable_standard (by decide) Config.fits_standard
    (by decide) hwritable [] []
  refine ⟨scripts, started, hscripts, hsetup, fun ticks tick => ?_⟩
  obtain ⟨i, entry, later, hentry, -, hrun, hrange⟩ := hruns ticks tick
  obtain ⟨n, hn, hlayer⟩ := hrange .layer (by decide)
  obtain rfl := List.mem_singleton.mp (List.mem_of_getElem? hentry)
  exact ⟨later, n, hrun, hn, hlayer⟩

end EntityScripts
end Hologram
