import Hologram.Proofs.Pack.Readability
import Hologram.Proofs.Script.NumberCode

/-! Which variables the code of a hologram changes. As long as the variables are numbers, whatever
numbers, code comes to its end, leaves numbers and changes only variables that it sets. -/
namespace Hologram

open Script

namespace Script.Store

/-- The variables that code reckons with are numbers. -/
def Numeric (store : Store) : Prop :=
  ∀ v : Variable, v.kind = .counted ∨ v.kind = .placed → store.IsNumber v.name

/-- What is left of a store when only some variables change. -/
def Agrees (changed : List Variable) (store later : Store) : Prop :=
  ∀ x ∉ changed.map Variable.name, later.get? x = store.get? x

theorem Agrees.refl (changed : List Variable) (store : Store) : Agrees changed store store :=
  fun _ _ => rfl

variable {changed changed' : List Variable} {store middle later : Store}

theorem Agrees.trans (h : Agrees changed store middle) (h' : Agrees changed middle later) :
    Agrees changed store later :=
  fun x hx => (h' x hx).trans (h x hx)

theorem Agrees.mono (h : Agrees changed store later) (hsub : changed ⊆ changed') :
    Agrees changed' store later :=
  fun x hx => h x fun hmem => hx (List.map_subset _ hsub hmem)

theorem Agrees.get? (h : Agrees changed store later) {v : Variable} (hv : v ∉ changed) :
    later.get? v.name = store.get? v.name := by
  apply h
  intro hmem
  obtain ⟨w, hw, hname⟩ := List.mem_map.mp hmem
  exact hv (Variable.name_injective hname ▸ hw)

theorem Agrees.variableValue {x : String} (h : Agrees changed store later)
    (hx : x ∉ changed.map Variable.name) :
    Expression.variableValue later x = Expression.variableValue store x := by
  rw [Expression.variableValue, Expression.variableValue, h x hx]

theorem Agrees.counts (h : Agrees changed store later) {v : Variable} (hv : v ∉ changed) {n : Int}
    (hstore : store.Counts v.name n) : later.Counts v.name n := by
  obtain ⟨x, hx, hint⟩ := hstore
  exact ⟨x, by rw [Expression.variableValue, h.get? hv, ← hx, Expression.variableValue], hint⟩

theorem agrees_insert {v : Variable} (hv : v ∈ changed) (store : Store) (value : Value) :
    Agrees changed store (store.insert v.name value) := by
  intro x hx
  have hne : v.name ≠ x := by
    rintro rfl
    exact hx (List.mem_map_of_mem hv)
  rw [Dictionary.get?_insert, if_neg hne]

theorem Numeric.insert (h : store.Numeric) (x : String) (value : Float) :
    Numeric (store.insert x (.number value)) := by
  intro v hv
  unfold IsNumber
  rw [variableValue_insert]
  split_ifs
  · exact ⟨value, rfl⟩
  · exact h v hv

/-- A variable of which only the truth counts may have any value. -/
theorem Numeric.insert_asked (h : store.Numeric) {v : Variable} (hv : v.kind = .asked)
    (value : Value) : Numeric (store.insert v.name value) := by
  intro w hw
  have hne : v.name ≠ w.name := by
    intro hname
    rw [← Variable.name_injective hname, hv] at hw
    simp at hw
  unfold IsNumber
  rw [variableValue_insert, if_neg hne]
  exact h w hw

end Script.Store

/-- An expression that is worth a number where the variables are numbers. -/
def Reckons (functions : Functions) (e : Expression) : Prop :=
  ∀ store : Store, store.Numeric → e.settled.IsNumber functions store

/-- A condition that has a value where the variables are numbers. -/
def Asks (functions : Functions) (c : Expression) : Prop :=
  ∀ store : Store, store.Numeric → ∃ p, c.settled.Decides functions store p

/-- Code that comes to its end where the variables are numbers, leaves numbers, and changes only
some variables. -/
def Keeps (functions : Functions) (changed : List Variable) (code : Code) : Prop :=
  ∀ store : Store, store.Numeric →
    ∃ later, code.Leaves functions store later ∧ later.Numeric ∧ store.Agrees changed later

section

variable {functions : Functions} {changed changed' : List Variable} {v : Variable}
  {e c : Expression} {code rest : Code} {i : Instruction Expression}

theorem keeps_nil : Keeps functions changed [] :=
  fun store hstore => ⟨store, Code.leaves_nil functions store, hstore, .refl changed store⟩

theorem Keeps.mono (h : Keeps functions changed code) (hsub : changed ⊆ changed') :
    Keeps functions changed' code := by
  intro store hstore
  obtain ⟨later, hlater, hnumeric, hagrees⟩ := h store hstore
  exact ⟨later, hlater, hnumeric, hagrees.mono hsub⟩

theorem Keeps.cons (h : Keeps functions changed [i]) (h' : Keeps functions changed rest) :
    Keeps functions changed (i :: rest) := by
  intro store hstore
  obtain ⟨middle, hmiddle, hnumeric, hagrees⟩ := h store hstore
  obtain ⟨later, hlater, hnumeric', hagrees'⟩ := h' middle hnumeric
  exact ⟨later, hmiddle.cons hlater, hnumeric', hagrees.trans hagrees'⟩

theorem Reckons.keeps (h : Reckons functions e) (hv : v ∈ changed) :
    Keeps functions changed [v.set e] := by
  intro store hstore
  obtain ⟨x, hx⟩ := h store hstore
  exact ⟨_, Code.leaves_assign (hx _), hstore.insert v.name x, store.agrees_insert hv _⟩

/-- A variable that is set to an integer is that integer. -/
theorem exists_leaves_counts {store : Store} (hstore : store.Numeric) {n : Int}
    (h : e.settled.Counts functions store n) (v : Variable) :
    ∃ later, Code.Leaves functions [v.set e] store later ∧ later.Numeric ∧
      store.Agrees [v] later ∧ later.Counts v.name n := by
  obtain ⟨x, hx, hint⟩ := h (Expression.evaluateText functions store)
  refine ⟨_, Code.leaves_assign hx, hstore.insert v.name x, store.agrees_insert (.head _) _, x, ?_,
    hint⟩
  rw [variableValue_insert, if_pos rfl]

/-- A branch changes what one of its blocks changes. -/
theorem Asks.keeps (h : Asks functions c) (hcode : Keeps functions changed code)
    (hrest : Keeps functions changed rest) : Keeps functions changed [.branch c code rest] := by
  intro store hstore
  obtain ⟨p, hp⟩ := h store hstore
  have hblock : Keeps functions changed (if p then code else rest) := by
    split_ifs
    · exact hcode
    · exact hrest
  obtain ⟨later, hlater, hkept⟩ := hblock store hstore
  exact ⟨later, Code.leaves_branch hp hlater, hkept⟩

theorem Reckons.asks (h : Reckons functions e) : Asks functions e :=
  fun store hstore => (h store hstore).exists_decides

theorem reckons_int (n : Int) : Reckons functions (.int n) :=
  fun _ _ => Expression.isNumber_int n

theorem reckons_get (hv : v.kind = .counted ∨ v.kind = .placed) : Reckons functions v.get :=
  fun _ hstore => Expression.isNumber_name (hstore v hv)

theorem reckons_negation (v : Variable) : Reckons functions v.negation :=
  fun _ _ => (Expression.decides_name v.name).isNumber_not

theorem reckons_compare {op : BinaryOperator} (hop : op ≠ .coalesce ∧ op ≠ .or ∧ op ≠ .and)
    (hv : v.kind = .counted ∨ v.kind = .placed) (n : Int) : Reckons functions (v.compare op n) := by
  intro store hstore
  rw [Variable.compare, Expression.settled_binary]
  exact .binary hop (reckons_get hv store hstore) (reckons_int n store hstore)

theorem asks_isAboveTop : Asks functions EntityScripts.isAboveTop := by
  intro store hstore
  rw [EntityScripts.isAboveTop, Expression.settled_binary]
  exact Expression.IsNumber.exists_decides (.binary (by decide)
    (reckons_get (.inl rfl) store hstore) (reckons_get (.inl rfl) store hstore))

/-- Counting up has a value for every count, also for zero. -/
theorem keeps_cycle (hfunctions : functions.get? "math.mod" = none) (hv : v ∈ changed)
    (hkind : v.kind = .counted) {count : Expression} (hcount : Reckons functions count) :
    Keeps functions changed [EntityScripts.cycle v count] := by
  apply Reckons.keeps _ hv
  intro store hstore
  exact .remainder hfunctions (reckons_compare (by decide) (.inl hkind) 1 store hstore)
    (hcount store hstore)

theorem keeps_toggle (hv : v ∈ changed) : Keeps functions changed [EntityScripts.toggle v] :=
  (reckons_negation v).keeps hv

theorem keeps_start (hv : v ∈ changed) (n : Int) :
    Keeps functions changed [EntityScripts.start v n] :=
  (reckons_int n).keeps hv

theorem keeps_selectTop (hv : .layer ∈ changed) :
    Keeps functions changed [EntityScripts.selectTop] :=
  Reckons.keeps (reckons_compare (by decide) (.inl rfl) 1) hv

end

namespace Control

def changes : Control → List Variable
  | toggleRendering => [.rendering]
  | changeOpacity => [.opacity]
  | toggleTint => [.showTint]
  | toggleValidating => [.validating]
  | changeLayer | decreaseLayer => [.layer]
  | changeLayerMode => [.layerMode]
  | moveHologram => [.offsetY]
  | rotateHologram => [.rotation]
  | changeStructure => [.structureIndex]
  | disablePlayerControls => [.controlsDisabled]
  | backupHologram => [.backupSlot, .savingBackup]

end Control

/-- The variables that some control changes. -/
def Variable.steered : List Variable :=
  .lastAction :: Control.all.flatMap Control.changes

section

variable {functions : Functions} (hfunctions : functions.get? "math.mod" = none) (config : Config)

include hfunctions

/-- A control changes its own variables and no others. -/
theorem keeps_effect (control : Control) :
    Keeps functions control.changes (EntityScripts.effect config control) := by
  cases control with
  | toggleRendering | toggleTint | toggleValidating | disablePlayerControls =>
    exact keeps_toggle (.head _)
  | changeOpacity | rotateHologram => exact keeps_cycle hfunctions (.head _) rfl (reckons_int 4)
  | changeLayer =>
    refine Keeps.cons (Reckons.keeps (reckons_compare (by decide) (.inl rfl) 1) (.head _)) ?_
    exact asks_isAboveTop.keeps (keeps_start (.head _) (-1)) keeps_nil
  | decreaseLayer =>
    refine Keeps.cons (Reckons.keeps (reckons_compare (by decide) (.inl rfl) 1) (.head _)) ?_
    have hbottom : Asks functions (Variable.layer.compare .less (-1)) :=
      (reckons_compare (by decide) (.inl rfl) (-1)).asks
    exact hbottom.keeps (keeps_selectTop (.head _)) keeps_nil
  | changeLayerMode =>
    apply Reckons.keeps _ (.head _)
    intro store hstore
    exact .conditional ((reckons_compare (by decide) (.inl rfl) _).asks store hstore)
      (Expression.isNumber_int _) (Expression.isNumber_int _)
  | moveHologram =>
    exact Reckons.keeps (reckons_compare (by decide) (.inr rfl) 1) (.head _)
  | changeStructure => exact keeps_cycle hfunctions (.head _) rfl (reckons_get (.inl rfl))
  | backupHologram =>
    exact Keeps.cons (keeps_cycle hfunctions (.head _) rfl (reckons_int _))
      (keeps_start (.tail _ (.head _)) 1)

theorem keeps_action (control : Control) :
    Keeps functions (.lastAction :: control.changes) (EntityScripts.action config control) :=
  Keeps.cons (keeps_start (.head _) _)
    ((keeps_effect hfunctions config control).mono (List.subset_cons_self ..))

theorem keeps_firstAction
    (hheld : ∀ control, Asks functions (EntityScripts.holds config control))
    (controls : List Control) :
    Keeps functions Variable.steered (EntityScripts.firstAction config controls) := by
  induction controls with
  | nil => exact keeps_nil
  | cons control others ih =>
    refine (hheld control).keeps ((keeps_action hfunctions config control).mono ?_) ih
    apply List.cons_subset_cons
    exact fun v hv => List.mem_flatMap.mpr ⟨control, control.mem_all, hv⟩

end
end Hologram
