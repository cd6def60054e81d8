import Hologram.Proofs.Config.Criteria
import Hologram.Proofs.Pack.Settings

/-! What the controls do to the settings, and that all settings stay in their ranges. -/
namespace Hologram

open Script

namespace Control

/-- What a control does to the settings, with a number of slots for backups. -/
def act (slots : Nat) (s : Settings) : Control → Settings
  | toggleRendering => s.flipped .rendering
  | changeOpacity => Function.update s .opacity ((s .opacity + 1).tmod 4)
  | toggleTint => s.flipped .showTint
  | toggleValidating => s.flipped .validating
  | changeLayer =>
    let s := Function.update s .layer (s .layer + 1)
    if s .structureHeight ≤ s .layer then Function.update s .layer (-1) else s
  | decreaseLayer =>
    let s := Function.update s .layer (s .layer - 1)
    if s .layer < -1 then Function.update s .layer (s .structureHeight - 1) else s
  | changeLayerMode => Function.update s .layerMode (if s .layerMode = 0 then 1 else 0)
  | moveHologram => Function.update s .offsetY (s .offsetY + 1)
  | rotateHologram => Function.update s .rotation ((s .rotation + 1).tmod 4)
  | changeStructure =>
    Function.update s .structureIndex ((s .structureIndex + 1).tmod (s .structureCount))
  | disablePlayerControls => s.flipped .controlsDisabled
  | backupHologram =>
    Function.update (Function.update s .backupSlot ((s .backupSlot + 1).tmod slots)) .savingBackup 1

theorem natAbs_actionId_le (control : Control) :
    ((control.actionId : Nat) : Int).natAbs ≤ 2 ^ 53 := by
  cases control <;> decide

/-- What a control does, together with the note that it was used. -/
def acted (slots : Nat) (control : Control) (s : Settings) : Settings :=
  act slots (Function.update s .lastAction control.actionId) control

end Control

namespace Variable

/-- The range of a variable, with a number of slots and of structures, and the height of the
structure that was selected last. -/
def InRange (slots count height : Nat) : Variable → Int → Prop
  | rendering, n | validating, n | showTint, n | controlsDisabled, n | layerMode, n => n = 0 ∨ n = 1
  | opacity, n | rotation, n => 0 ≤ n ∧ n ≤ 3
  | structureIndex, n => 0 ≤ n ∧ n < count
  | structureCount, n => n = count
  | structureHeight, n => n = height
  | layer, n => -1 ≤ n ∧ n < height
  | backupSlot, n => -1 ≤ n ∧ n < slots
  | lastAction, n => ∃ entry ∈ actionIds, n = (entry.2 : Int)
  | _, _ => True

end Variable

namespace Settings

/-- All variables are in their ranges. -/
def InRange (slots count height : Nat) (s : Settings) : Prop :=
  ∀ v : Variable, v.InRange slots count height (s v)

variable {slots count height : Nat} {s : Settings}

theorem InRange.update (h : s.InRange slots count height) {v : Variable} {n : Int}
    (hn : v.InRange slots count height n) :
    InRange slots count height (Function.update s v n) := by
  intro w
  by_cases hw : w = v
  · subst hw
    rwa [Function.update_self]
  · rw [Function.update_of_ne hw]
    exact h w

theorem InRange.flipped (h : s.InRange slots count height) {v : Variable}
    (hv : ∀ n, n = 0 ∨ n = 1 → v.InRange slots count height n) :
    InRange slots count height (s.flipped v) := by
  apply h.update
  apply hv
  split_ifs
  · exact .inr rfl
  · exact .inl rfl

/-- What the controls read of the selection. -/
theorem InRange.selected (h : s.InRange slots count height) :
    s .structureHeight = height ∧ s .structureCount = count ∧
      -1 ≤ s .layer ∧ s .layer < height :=
  ⟨h .structureHeight, h .structureCount, h .layer⟩

theorem height_update_layer (s : Settings) (n : Int) :
    Function.update s .layer n .structureHeight = s .structureHeight :=
  Function.update_of_ne (by decide) n s

theorem inRange_tmod {a n : Int} (ha : -1 ≤ a) (hn : 0 < n) :
    0 ≤ (a + 1).tmod n ∧ (a + 1).tmod n < n :=
  ⟨Int.tmod_nonneg n (by omega), Int.tmod_lt_of_pos _ hn⟩

/-- No control leaves the ranges. -/
theorem InRange.act (h : s.InRange slots count height) (hslots : 0 < slots) (control : Control) :
    InRange slots count height (control.act slots s) := by
  obtain ⟨hheight, hcount, hlayer⟩ := h.selected
  cases control with
  | toggleRendering | toggleTint | toggleValidating | disablePlayerControls =>
    exact h.flipped fun n hn => hn
  | changeOpacity =>
    have hopacity : 0 ≤ s .opacity ∧ s .opacity ≤ 3 := h .opacity
    have hmod := inRange_tmod (show -1 ≤ s .opacity by omega) (show 0 < 4 by decide)
    exact h.update ⟨hmod.1, by omega⟩
  | rotateHologram =>
    have hrotation : 0 ≤ s .rotation ∧ s .rotation ≤ 3 := h .rotation
    have hmod := inRange_tmod (show -1 ≤ s .rotation by omega) (show 0 < 4 by decide)
    exact h.update ⟨hmod.1, by omega⟩
  | changeLayer =>
    unfold Control.act
    simp only [Function.update_self, Function.update_idem, height_update_layer]
    split_ifs with htop
    · exact h.update ⟨by omega, by omega⟩
    · exact h.update ⟨by omega, by omega⟩
  | decreaseLayer =>
    unfold Control.act
    simp only [Function.update_self, Function.update_idem, height_update_layer]
    split_ifs with hbottom
    · exact h.update ⟨by omega, by omega⟩
    · exact h.update ⟨by omega, by omega⟩
  | changeLayerMode =>
    apply h.update
    by_cases hzero : s .layerMode = 0
    · exact .inr (if_pos hzero)
    · exact .inl (if_neg hzero)
  | moveHologram => exact h.update trivial
  | changeStructure =>
    have hindex : 0 ≤ s .structureIndex ∧ s .structureIndex < count := h .structureIndex
    have hmod := inRange_tmod (show -1 ≤ s .structureIndex by omega)
      (show 0 < (count : Int) by omega)
    exact h.update (hcount ▸ hmod)
  | backupHologram =>
    have hslot : -1 ≤ s .backupSlot ∧ s .backupSlot < slots := h .backupSlot
    have hmod := inRange_tmod hslot.1 (show 0 < (slots : Int) by omega)
    have hfirst : InRange slots count height
        (Function.update s .backupSlot ((s .backupSlot + 1).tmod slots)) :=
      h.update ⟨by omega, hmod.2⟩
    exact hfirst.update trivial

/-- The note that a control was used is in its range. -/
theorem InRange.noted (h : s.InRange slots count height) (control : Control) :
    InRange slots count height (Function.update s .lastAction control.actionId) := by
  apply h.update
  refine ⟨(control.name, control.actionId), .tail _ ?_, rfl⟩
  exact List.mem_map_of_mem (f := fun control : Control => (control.name, control.actionId))
    control.mem_all

theorem InRange.acted (h : s.InRange slots count height) (hslots : 0 < slots) (control : Control) :
    InRange slots count height (control.acted slots s) :=
  (h.noted control).act hslots control

variable {functions : Functions} {sneaks : Bool}

theorem decides_isAboveTop : Decides functions sneaks s EntityScripts.isAboveTop
    (decide (s .structureHeight ≤ s .layer)) :=
  fun _ hstore => EntityScripts.decides_isAboveTop (hstore.counts rfl) (hstore.counts rfl)

/-- A branch without an alternative changes the settings or leaves them. -/
theorem Decides.turns_guarded {c : Expression} {p : Prop} [Decidable p] {code : Code}
    {t : Settings} (hc : Decides functions sneaks s c (decide p))
    (h : p → Turns functions sneaks code s t) :
    Turns functions sneaks [.branch c code []] s (if p then t else s) := by
  apply hc.turns_branch
  by_cases hp : p
  · simpa [hp] using h hp
  · simpa [hp] using turns_nil

/-- The numbers that the scripts reckon with: at least one slot and one structure, and all of them
doubles with room to spare. -/
structure Countable (slots count height : Nat) : Prop where
  slots_pos : 0 < slots
  slots_lt : slots < 2 ^ 32
  count_lt : count < 2 ^ 32
  height_lt : height < 2 ^ 32

/-- The code of a control does what the control does. -/
theorem turns_effect {config : Config} (hfunctions : functions.get? "math.mod" = none)
    (hcountable : Countable config.backupSlotCount count height)
    (h : s.InRange config.backupSlotCount count height) (control : Control) :
    Turns functions sneaks (EntityScripts.effect config control) s
      (control.act config.backupSlotCount s) := by
  obtain ⟨hslots, hslots', hcount', hheight'⟩ := hcountable
  obtain ⟨hheight, hcount, hlayer⟩ := h.selected
  cases control with
  | toggleRendering | toggleTint | toggleValidating | disablePlayerControls =>
    exact turns_toggle rfl
  | changeOpacity =>
    have hopacity : 0 ≤ s .opacity ∧ s .opacity ≤ 3 := h .opacity
    exact turns_cycle hfunctions rfl (by omega) (gives_int (by decide)) (by decide)
  | rotateHologram =>
    have hrotation : 0 ≤ s .rotation ∧ s .rotation ≤ 3 := h .rotation
    exact turns_cycle hfunctions rfl (by omega) (gives_int (by decide)) (by decide)
  | changeLayer =>
    refine Turns.cons (((gives_shifted rfl).1 (by omega)).turns rfl) ?_
    exact decides_isAboveTop.turns_guarded fun _ => turns_start rfl (by decide)
  | decreaseLayer =>
    refine Turns.cons (((gives_shifted rfl).2 (by omega)).turns rfl) ?_
    have hbottom (t : Settings) : Decides functions sneaks t (Variable.layer.compare .less (-1))
        (decide (t .layer < -1)) := decides_compare rfl rfl (by decide) rfl
    refine (hbottom _).turns_guarded fun _ => ?_
    exact ((gives_shifted rfl).2 (by rw [height_update_layer]; omega)).turns rfl
  | changeLayerMode =>
    have hmode : Gives functions sneaks s (.conditional
        (Variable.layerMode.compare .equal LayerMode.single.number)
        (.int LayerMode.allBelow.number) (.int LayerMode.single.number))
        (if decide (s .layerMode = 0) then 1 else 0) := by
      intro store hstore
      have hsingle : Decides functions sneaks s (Variable.layerMode.compare .equal 0)
          (decide (s .layerMode = 0)) := decides_compare rfl rfl (by decide) rfl
      exact (hsingle store hstore).conditional (Expression.counts_int (by decide))
        (Expression.counts_int (by decide))
    simp only [decide_eq_true_eq] at hmode
    exact hmode.turns rfl
  | moveHologram =>
    apply turns_set
    intro store hstore
    obtain ⟨x, hx⟩ := hstore.shows .offsetY
    refine ⟨.number (x + Float.ofInt 1), ?_, ⟨_, rfl⟩⟩
    change (Expression.binary .add Variable.offsetY.get (.int 1)).evaluate functions store = _
    simp only [Expression.evaluate, Variable.get, Expression.evaluateWith, hx]
    rfl
  | changeStructure =>
    have hindex : 0 ≤ s .structureIndex ∧ s .structureIndex < count := h .structureIndex
    exact turns_cycle hfunctions rfl (by omega) (gives_get rfl) (by omega)
  | backupHologram =>
    have hslot : -1 ≤ s .backupSlot ∧ s .backupSlot < config.backupSlotCount := h .backupSlot
    refine Turns.cons (turns_cycle hfunctions rfl (by omega) (gives_int (by omega)) (by omega)) ?_
    exact turns_start rfl (by decide)

end Settings
end Hologram
