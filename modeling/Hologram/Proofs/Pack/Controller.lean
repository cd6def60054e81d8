import Hologram.Pack.Controller
import Hologram.Pack.Variable
import Hologram.Proofs.Script.Decision
import Mathlib.Data.List.Forall2

/-! Runs of controllers. Where it is known which guards hold, it is known which transition is taken
and where a run goes on. -/
namespace Hologram

open Script

variable {functions : Functions} {store : Store}

namespace Variable

theorem isName_name (v : Variable) : Lexer.isName v.name = true := by
  cases v <;> decide +kernel

theorem faithful_get (v : Variable) : v.get.Faithful := by
  simp [Expression.Faithful, get, Expression.parts, Expression.Legible, Expression.signsApart,
    Expression.Native, v.isName_name]

theorem faithful_negation (v : Variable) : v.negation.Faithful := by
  simp [Expression.Faithful, negation, get, Expression.parts, Expression.Legible,
    Expression.signsApart, Expression.Native, v.isName_name]

theorem faithful_compare {op : BinaryOperator} (hop : op ≠ .subtract) (v : Variable) {n : Int}
    (hn : n.natAbs ≤ 2 ^ 53) : (v.compare op n).Faithful := by
  obtain ⟨hleast, hgreatest⟩ := Number.Width.between_of_natAbs_le hn
  exact .binary hop v.faithful_get (Expression.faithful_int hleast hgreatest)

end Variable

theorem faithful_chained {op : BinaryOperator} (hop : op ≠ .subtract) {first : Expression}
    {rest : List Expression} (hfirst : first.Faithful) (hrest : ∀ e ∈ rest, e.Faithful) :
    (chained op first rest).Faithful := by
  induction rest generalizing first with
  | nil => exact hfirst
  | cons e rest ih =>
    obtain ⟨he, hrest⟩ := List.forall_mem_cons.mp hrest
    exact ih (hfirst.binary hop he) hrest

theorem decides_chained_and {first : Expression} {rest : List Expression} {p : Bool}
    {qs : List Bool} (hfirst : first.Decides functions store p)
    (hrest : List.Forall₂ (Expression.Decides functions store) rest qs) :
    (chained .and first rest).Decides functions store (p && qs.all id) := by
  induction hrest generalizing first p with
  | nil => simpa [chained] using hfirst
  | cons hq _ ih =>
    rw [List.all_cons, ← Bool.and_assoc]
    exact ih (hfirst.and hq)

theorem decides_chained_or {first : Expression} {rest : List Expression} {p : Bool}
    {qs : List Bool} (hfirst : first.Decides functions store p)
    (hrest : List.Forall₂ (Expression.Decides functions store) rest qs) :
    (chained .or first rest).Decides functions store (p || qs.any id) := by
  induction hrest generalizing first p with
  | nil => simpa [chained] using hfirst
  | cons hq _ ih =>
    rw [List.any_cons, ← Bool.or_assoc]
    exact ih (hfirst.or hq)

namespace Transition

/-- The guard of a transition has a value, and it holds or not. -/
def Decides (functions : Functions) (store : Store) (t : Transition) (b : Bool) : Prop :=
  ∃ value, Expression.evaluateText functions store t.guard = .ok value ∧ value.isTruthy = b

/-- A guard that was written out holds when the condition does. -/
theorem decides_when {e : Expression} {b : Bool} (he : e.Faithful)
    (h : Expression.Decides functions store e b) (target : String) :
    (Transition.when target e).Decides functions store b :=
  h.evaluateText he

end Transition

namespace Controller

theorem enabled?_cons_of_decides_true {t : Transition} (rest : List Transition)
    (h : t.Decides functions store true) : enabled? functions store (t :: rest) = .ok (some t) := by
  obtain ⟨value, hvalue, htrue⟩ := h
  simp [enabled?, hvalue, htrue, bind, Except.bind, pure, Except.pure]

theorem enabled?_cons_of_decides_false {t : Transition} (rest : List Transition)
    (h : t.Decides functions store false) :
    enabled? functions store (t :: rest) = enabled? functions store rest := by
  obtain ⟨value, hvalue, hfalse⟩ := h
  simp [enabled?, hvalue, hfalse, bind, Except.bind]

/-- Where guards hold exactly for transitions to one state, a transition to it is taken if there is
one, and none else. -/
theorem enabled?_of_decides_target {ts : List Transition} {target : String}
    (h : ∀ t ∈ ts, t.Decides functions store (t.target == target)) :
    (target ∉ ts.map (·.target) ∧ enabled? functions store ts = .ok none) ∨
      target ∈ ts.map (·.target) ∧
        ∃ t, t.target = target ∧ enabled? functions store ts = .ok (some t) := by
  induction ts with
  | nil => exact .inl ⟨List.not_mem_nil, rfl⟩
  | cons t rest ih =>
    obtain ⟨ht, hrest⟩ := List.forall_mem_cons.mp h
    rw [List.map_cons, List.mem_cons]
    by_cases htarget : t.target = target
    · rw [beq_iff_eq.mpr htarget] at ht
      exact .inr ⟨.inl htarget.symm, t, htarget, enabled?_cons_of_decides_true rest ht⟩
    · rw [beq_eq_false_iff_ne.mpr htarget] at ht
      rw [enabled?_cons_of_decides_false rest ht]
      exact (ih hrest).imp (.imp_left fun hmem => not_or.mpr ⟨Ne.symm htarget, hmem⟩)
        (.imp_left .inr)

variable {c : Controller} {name : String} {state : ControllerState}

/-- A run from a state settles in another after a number of transitions at the most. -/
def SettlesWithin (functions : Functions) (store : Store) (c : Controller) (steps : Nat)
    (start target : String) (transitions : Nat) : Prop :=
  ∃ path, c.runWithin functions store steps start = ⟨start :: path, .settled⟩ ∧
    path.length ≤ transitions ∧ (start :: path).getLast? = some target

namespace SettlesWithin

/-- A run ends in a state without a guard that holds. -/
theorem settled (hstate : c.state? name = some state)
    (h : enabled? functions store state.transitions = .ok none) (steps transitions : Nat) :
    SettlesWithin functions store c (steps + 1) name name transitions :=
  ⟨[], by simp [runWithin, hstate, h], Nat.zero_le _, rfl⟩

/-- A run goes on from the state that the first guard to hold leads to. -/
theorem taken {t : Transition} (hstate : c.state? name = some state)
    (h : enabled? functions store state.transitions = .ok (some t)) {steps transitions : Nat}
    {target : String} (hrun : SettlesWithin functions store c steps t.target target transitions) :
    SettlesWithin functions store c (steps + 1) name target (transitions + 1) := by
  obtain ⟨path, hpath, hlength, hlast⟩ := hrun
  refine ⟨t.target :: path, ?_, Nat.succ_le_succ hlength, ?_⟩
  · simp [runWithin, hstate, h, hpath]
  · rwa [List.getLast?_cons_cons]

theorem mono {steps m n : Nat} {start target : String}
    (h : SettlesWithin functions store c steps start target m) (hmn : m ≤ n) :
    SettlesWithin functions store c steps start target n := by
  obtain ⟨path, hpath, hlength, hlast⟩ := h
  exact ⟨path, hpath, Nat.le_trans hlength hmn, hlast⟩

/-- A run that settles in as many steps as it may take is the run of the controller. -/
theorem run {start target : String} {n : Nat}
    (h : SettlesWithin functions store c (c.states.length + 1) start target n) :
    ∃ path, path.length ≤ n ∧ c.run functions store start = ⟨start :: path, .settled⟩ ∧
      (c.run functions store start).last? = some target := by
  obtain ⟨path, hpath, hlength, hlast⟩ := h
  refine ⟨path, hlength, hpath, ?_⟩
  rw [Controller.run, hpath]
  exact hlast

end SettlesWithin

end Controller
end Hologram
