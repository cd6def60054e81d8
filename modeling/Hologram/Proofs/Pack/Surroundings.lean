import Hologram.Proofs.Pack.Edges

/-! Frames in which the game may tell the scripts anything: any value for whether the player sneaks,
and queries with any answers, which can also fail. Which control acts is settled by the answers. -/
namespace Hologram

open Script

/-- What the game tells the scripts in a frame: whether the player sneaks, and the answers to the
queries for held items. -/
structure Surroundings where
  sneaking : Value
  itemName : NativeFunction
  itemTag : NativeFunction

namespace Surroundings

variable (g : Surroundings) (config : Config)

def functions : Functions :=
  [(ItemCriteria.nameQuery, g.itemName), (ItemCriteria.tagQuery, g.itemTag)]

theorem functions_mod : g.functions.get? "math.mod" = none := rfl

/-- The answer to whether an item is held that a control takes. -/
def answer (control : Control) : Except EvalError Value :=
  (config.criteria control).answer g.functions heldItemSlot

/-- An item is held that a control takes. -/
def Holds (control : Control) : Prop :=
  ∃ value, g.answer config control = .ok value ∧ value.isTruthy = true

/-- The first of several controls whose item is held. The queries for those after it are not
asked. -/
def firstHeld : List Control → Except EvalError (Option Control)
  | [] => .ok none
  | control :: others => do
    let value ← g.answer config control
    if value.isTruthy then .ok (some control) else firstHeld others

/-- The control that acts, by whether the player starts to sneak and whether the controls are
disabled. -/
def acting (starts disabled : Bool) : Except EvalError (Option Control) :=
  if starts then do
    let value ← g.answer config .disablePlayerControls
    if value.isTruthy then .ok (some .disablePlayerControls)
    else if disabled then .ok none
    else g.firstHeld config EntityScripts.ordinaryControls
  else .ok none

variable {g config} {control : Control}

/-- Where all queries are answered, it is settled which control acts. -/
theorem exists_acting (h : ∀ control, ∃ value, g.answer config control = .ok value)
    (starts disabled : Bool) : ∃ control?, g.acting config starts disabled = .ok control? := by
  have hfirst (controls : List Control) :
      ∃ control?, g.firstHeld config controls = .ok control? := by
    induction controls with
    | nil => exact ⟨none, rfl⟩
    | cons control others ih =>
      obtain ⟨value, hvalue⟩ := h control
      rw [firstHeld, hvalue, ok_bind]
      split_ifs
      · exact ⟨_, rfl⟩
      · exact ih
  obtain ⟨value, hvalue⟩ := h .disablePlayerControls
  rw [acting, hvalue, ok_bind]
  split_ifs
  · exact ⟨_, rfl⟩
  · exact ⟨_, rfl⟩
  · exact hfirst _
  · exact ⟨_, rfl⟩

theorem holds_of_firstHeld {controls : List Control}
    (h : g.firstHeld config controls = .ok (some control)) : g.Holds config control := by
  induction controls with
  | nil => cases h
  | cons other others ih =>
    cases hanswer : g.answer config other with
    | error e =>
      rw [firstHeld, hanswer] at h
      contradiction
    | ok value =>
      rw [firstHeld, hanswer, ok_bind] at h
      split_ifs at h with htruthy
      · cases h
        exact ⟨value, hanswer, htruthy⟩
      · exact ih h

/-- A control acts only when the player starts to sneak, and while its item is held. -/
theorem holds_of_acting {starts disabled : Bool}
    (h : g.acting config starts disabled = .ok (some control)) :
    starts = true ∧ g.Holds config control := by
  cases starts with
  | false => cases h
  | true =>
    refine ⟨rfl, ?_⟩
    cases hanswer : g.answer config .disablePlayerControls with
    | error e =>
      rw [acting, if_pos rfl, hanswer] at h
      contradiction
    | ok value =>
      rw [acting, if_pos rfl, hanswer, ok_bind] at h
      split_ifs at h with htruthy hdisabled
      · cases h
        exact ⟨value, hanswer, htruthy⟩
      · cases h
      · exact holds_of_firstHeld h

variable {store : Store} {code others : Code} {c : Expression} {p : Bool}
  {decision : Except EvalError (Option Control)}

/-- Code does what one control does, or nothing, or it fails before anything acts. -/
def Follows (g : Surroundings) (config : Config) (code : Code) (store : Store) :
    Except EvalError (Option Control) → Prop
  | .error e => code.Ends g.functions store (.error e) store
  | .ok none => code.Leaves g.functions store store
  | .ok (some control) => ∀ later,
    (EntityScripts.action config control).Leaves g.functions store later →
      code.Leaves g.functions store later

theorem Follows.branch (hc : c.settled.Decides g.functions store p)
    (h : g.Follows config (if p then code else others) store decision) :
    g.Follows config [.branch c code others] store decision := by
  match decision with
  | .error e => exact Code.Ends.branch hc h
  | .ok none => exact Code.leaves_branch hc h
  | .ok (some control) => exact fun later hlater => Code.leaves_branch hc (h later hlater)

theorem evaluateWith_holds (hconfig : config.Quotable) (control : Control)
    (rawValue : String → Except EvalError Value) :
    (EntityScripts.holds config control).settled.evaluateWith g.functions store rawValue =
      g.answer config control := by
  rw [EntityScripts.holds, ItemCriteria.settled_code (hconfig control) (by decide)]
  exact ItemCriteria.evaluateWith_expression ..

theorem decides_holds (hconfig : config.Quotable) {value : Value}
    (hvalue : g.answer config control = .ok value) :
    (EntityScripts.holds config control).settled.Decides g.functions store value.isTruthy :=
  fun rawValue => ⟨value, (evaluateWith_holds hconfig control rawValue).trans hvalue, rfl⟩

/-- The first control whose item is held acts. -/
theorem follows_firstAction (hconfig : config.Quotable) (controls : List Control) :
    g.Follows config (EntityScripts.firstAction config controls) store
      (g.firstHeld config controls) := by
  induction controls with
  | nil => exact Code.leaves_nil g.functions store
  | cons control others ih =>
    cases hanswer : g.answer config control with
    | error e =>
      rw [firstHeld, hanswer]
      exact Code.ends_branch_of_error rfl ((evaluateWith_holds hconfig control _).trans hanswer)
    | ok value =>
      rw [firstHeld, hanswer, ok_bind]
      apply Follows.branch (decides_holds hconfig hanswer)
      split_ifs
      · exact fun later hlater => hlater
      · exact ih

theorem decides_started :
    Variable.sneakStarted.get.settled.Decides g.functions store (store.isOn .sneakStarted) :=
  Expression.decides_name Variable.sneakStarted.name

theorem decides_whenSneakStarted (hstarts : store.isOn .sneakStarted = true)
    (hc : c.settled.Decides g.functions store p) :
    (EntityScripts.whenSneakStarted c).settled.Decides g.functions store p := by
  have hstarted := @decides_started g store
  rw [hstarts] at hstarted
  rw [EntityScripts.whenSneakStarted, Expression.settled_binary]
  exact hstarted.and hc

/-- A condition that is asked for when the player starts to sneak fails as it does by itself. -/
theorem evaluate_whenSneakStarted_of_error (hstarts : store.isOn .sneakStarted = true)
    {e : EvalError} (hc : c.settled.evaluate g.functions store = .error e) :
    (EntityScripts.whenSneakStarted c).settled.evaluate g.functions store = .error e := by
  obtain ⟨value, hvalue, htruthy⟩ :=
    @decides_started g store (Expression.evaluateText g.functions store)
  rw [Expression.evaluate] at hc ⊢
  rw [EntityScripts.whenSneakStarted, Expression.settled_binary, Expression.evaluateWith, hvalue,
    ok_bind, htruthy, hstarts, hc]
  rfl

/-- The control acts that is settled by the answers. -/
theorem follows_actions (hconfig : config.Quotable) :
    g.Follows config [EntityScripts.actions config] store
      (g.acting config (store.isOn .sneakStarted) (store.isOn .controlsDisabled)) := by
  cases hstarts : store.isOn .sneakStarted with
  | false =>
    have hidle (c : Expression) :
        (EntityScripts.whenSneakStarted c).settled.Decides g.functions store false := by
      have hstarted := @decides_started g store
      rw [hstarts] at hstarted
      rw [EntityScripts.whenSneakStarted, Expression.settled_binary]
      exact hstarted.and_of_false c.settled
    exact Follows.branch (hidle _) (Follows.branch (hidle _) (Code.leaves_nil g.functions store))
  | true =>
    cases hanswer : g.answer config .disablePlayerControls with
    | error e =>
      rw [acting, if_pos rfl, hanswer]
      have hfails : (EntityScripts.holds config .disablePlayerControls).settled.evaluate
          g.functions store = .error e :=
        (evaluateWith_holds hconfig .disablePlayerControls _).trans hanswer
      exact Code.ends_branch_of_error rfl (evaluate_whenSneakStarted_of_error hstarts hfails)
    | ok value =>
      rw [acting, if_pos rfl, hanswer, ok_bind]
      apply Follows.branch (decides_whenSneakStarted hstarts (decides_holds hconfig hanswer))
      have hfree : Variable.controlsDisabled.negation.settled.Decides g.functions store
          (!store.isOn .controlsDisabled) :=
        (Expression.decides_name Variable.controlsDisabled.name).not
      split_ifs with hdisables hdisabled
      · exact fun later hlater => hlater
      · apply Follows.branch (decides_whenSneakStarted hstarts hfree)
        rw [hdisabled]
        exact Code.leaves_nil g.functions store
      · apply Follows.branch (decides_whenSneakStarted hstarts hfree)
        rw [Bool.eq_false_iff.mpr hdisabled]
        exact follows_firstAction hconfig _

end Surroundings
end Hologram
