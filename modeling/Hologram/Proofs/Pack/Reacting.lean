import Hologram.Proofs.Pack.Acting

/-! How a held item acts: when the player starts to sneak, the first control acts whose item is
held. -/
namespace Hologram

open Script

/-- Settings in which the texts of all items can stand in single quotes. -/
def Config.Quotable (config : Config) : Prop :=
  ∀ control, (config.criteria control).Quotable

theorem Config.quotable_standard : Config.standard.Quotable := by
  intro control
  cases control <;> decide

/-- Where the queries answer with numbers, each item is held or not, whatever the variables are. -/
theorem EntityScripts.exists_held {functions : Functions} {config : Config}
    (hconfig : config.Quotable)
    (hname : ItemCriteria.AnswersNumbers functions ItemCriteria.nameQuery)
    (htag : ItemCriteria.AnswersNumbers functions ItemCriteria.tagQuery) :
    ∃ held : Control → Bool, ∀ control store,
      (holds config control).settled.Decides functions store (held control) := by
  have h (control : Control) := ItemCriteria.exists_decides hname htag (config.criteria control)
    heldItemSlot
  choose held hheld using h
  refine ⟨held, fun control store => ?_⟩
  rw [holds, ItemCriteria.settled_code (hconfig control) (by decide)]
  exact hheld control store

namespace Settings

variable {functions : Functions} {sneaks : Bool} {config : Config} {count height : Nat}
  {s : Settings} {held : Control → Bool}

/-- What the first of several controls does whose item is held. -/
def firstActed (slots : Nat) (held : Control → Bool) (controls : List Control) (s : Settings) :
    Settings :=
  match controls.find? held with
  | some control => control.acted slots s
  | none => s

def reacted (slots : Nat) (held : Control → Bool) (s : Settings) : Settings :=
  if s .sneakStarted = 0 then s
  else if held .disablePlayerControls then Control.disablePlayerControls.acted slots s
  else if s .controlsDisabled = 0 then firstActed slots held EntityScripts.ordinaryControls s
  else s

theorem InRange.firstActed {slots : Nat} (h : s.InRange slots count height) (hslots : 0 < slots)
    (controls : List Control) :
    InRange slots count height (firstActed slots held controls s) := by
  unfold Settings.firstActed
  split
  · exact h.acted hslots _
  · exact h

theorem InRange.reacted {slots : Nat} (h : s.InRange slots count height) (hslots : 0 < slots) :
    InRange slots count height (reacted slots held s) := by
  unfold Settings.reacted
  split_ifs
  · exact h
  · exact h.acted hslots _
  · exact h.firstActed hslots _
  · exact h

theorem decides_holds (hconfig : config.Quotable)
    (hname : ItemCriteria.AnswersNumbers functions ItemCriteria.nameQuery)
    (htag : ItemCriteria.AnswersNumbers functions ItemCriteria.tagQuery) :
    ∃ held : Control → Bool, ∀ s control,
      Decides functions sneaks s (EntityScripts.holds config control) (held control) := by
  obtain ⟨held, hheld⟩ := EntityScripts.exists_held hconfig hname htag
  exact ⟨held, fun s control store _ => hheld control store⟩

theorem turns_action (hfunctions : functions.get? "math.mod" = none)
    (hcountable : Countable config.backupSlotCount count height)
    (h : s.InRange config.backupSlotCount count height) (control : Control) :
    Turns functions sneaks (EntityScripts.action config control) s
      (control.acted config.backupSlotCount s) := by
  apply Turns.cons (turns_start rfl control.natAbs_actionId_le)
  exact turns_effect hfunctions hcountable (h.noted control) control

theorem turns_firstAction (hfunctions : functions.get? "math.mod" = none)
    (hcountable : Countable config.backupSlotCount count height)
    (h : s.InRange config.backupSlotCount count height)
    (hheld : ∀ control, Decides functions sneaks s (EntityScripts.holds config control)
      (held control)) (controls : List Control) :
    Turns functions sneaks (EntityScripts.firstAction config controls) s
      (firstActed config.backupSlotCount held controls s) := by
  induction controls with
  | nil => exact turns_nil
  | cons control others ih =>
    refine (hheld control).turns_branch ?_
    unfold firstActed
    rw [List.find?_cons]
    cases held control with
    | true => exact turns_action hfunctions hcountable h control
    | false => exact ih

/-- Unless the player has started to sneak, no condition on it is asked for. -/
theorem decides_whenSneakStarted_idle (h : s .sneakStarted = 0) (c : Expression) :
    Decides functions sneaks s (EntityScripts.whenSneakStarted c) false := by
  intro store hstore
  have hidle := @decides_asked functions sneaks s .sneakStarted rfl store hstore
  rw [decide_eq_false (not_not_intro h)] at hidle
  exact Expression.settled_binary _ _ _ ▸ hidle.and_of_false c.settled

theorem decides_whenSneakStarted (h : s .sneakStarted ≠ 0) {c : Expression} {p : Bool}
    (hc : Decides functions sneaks s c p) :
    Decides functions sneaks s (EntityScripts.whenSneakStarted c) p := by
  intro store hstore
  have hstarted := @decides_asked functions sneaks s .sneakStarted rfl store hstore
  rw [decide_eq_true h] at hstarted
  exact Expression.settled_binary _ _ _ ▸ hstarted.and (hc store hstore)

/-- Unless the player has started to sneak, nothing acts. -/
theorem turns_actions_idle (h : s .sneakStarted = 0) :
    Turns functions sneaks [EntityScripts.actions config] s s := by
  refine (decides_whenSneakStarted_idle h _).turns_branch ?_
  exact (decides_whenSneakStarted_idle h _).turns_branch turns_nil

/-- The held item acts when the player has started to sneak. -/
theorem turns_actions (hfunctions : functions.get? "math.mod" = none)
    (hcountable : Countable config.backupSlotCount count height)
    (h : s.InRange config.backupSlotCount count height)
    (hheld : ∀ control, Decides functions sneaks s (EntityScripts.holds config control)
      (held control)) :
    Turns functions sneaks [EntityScripts.actions config] s
      (reacted config.backupSlotCount held s) := by
  have hdisabled : Decides functions sneaks s Variable.controlsDisabled.negation
      (decide (s .controlsDisabled = 0)) := by
    have hvalue : (!decide (s .controlsDisabled ≠ 0)) = decide (s .controlsDisabled = 0) := by
      simp
    rw [← hvalue]
    intro store hstore
    exact (@decides_counted functions sneaks s .controlsDisabled rfl store hstore).not
  unfold reacted
  split_ifs with hstarted hdisable hfree
  · exact turns_actions_idle hstarted
  · apply (decides_whenSneakStarted hstarted (hheld .disablePlayerControls)).turns_branch
    rw [if_pos hdisable]
    exact turns_action hfunctions hcountable h _
  · apply (decides_whenSneakStarted hstarted (hheld .disablePlayerControls)).turns_branch
    rw [if_neg hdisable]
    apply (decides_whenSneakStarted hstarted hdisabled).turns_branch
    rw [if_pos (decide_eq_true hfree)]
    exact turns_firstAction hfunctions hcountable h hheld _
  · apply (decides_whenSneakStarted hstarted (hheld .disablePlayerControls)).turns_branch
    rw [if_neg hdisable]
    apply (decides_whenSneakStarted hstarted hdisabled).turns_branch
    rw [if_neg (by simpa using hfree)]
    exact turns_nil

end Settings
end Hologram
