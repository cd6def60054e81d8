import Hologram.Pack.EntityScript
import Hologram.Proofs.Pack.Controller
import Hologram.Proofs.Script.Running
import Mathlib.Logic.Function.Basic

/-! What the variables of a hologram say, as one integer for each, and how code changes it. -/
namespace Hologram

open Script

/-- An integer for each variable of a hologram. -/
abbrev Settings := Variable → Int

namespace Variable

inductive Kind where
  /-- An integer, which code reckons with. -/
  | counted
  /-- A truth value, of which nothing but the truth counts. -/
  | asked
  /-- A coordinate. -/
  | placed
  /-- A number of blocks, which code only passes on. -/
  | total
  deriving DecidableEq

def kind : Variable → Kind
  | wasSneaking | sneakStarted => .asked
  | offsetX | offsetY | offsetZ => .placed
  | blocksToValidate | blocksToValidateInLayer => .total
  | _ => .counted

/-- What the value of a variable has to be where the variable is set to an integer. A total below
zero says nothing. -/
def Shows (v : Variable) (value : Value) (n : Int) : Prop :=
  match v.kind with
  | .counted => ∃ x, value = .number x ∧ Number.IsInt x n
  | .asked => value.isTruthy = decide (n ≠ 0)
  | .placed => ∃ x, value = .number x
  | .total => 0 ≤ n → value = .number (Float.ofInt n)

/-- No variable of a hologram is the one that the game sets. -/
theorem sneaking_ne_name (v : Variable) : "q.is_sneaking" ≠ v.name := by
  cases v <;> decide

theorem shows_counted {v : Variable} (hv : v.kind = .counted) {value : Value} {n : Int} :
    v.Shows value n ↔ ∃ x, value = .number x ∧ Number.IsInt x n := by
  rw [Shows, hv]

theorem shows_asked {v : Variable} (hv : v.kind = .asked) {value : Value} {n : Int} :
    v.Shows value n ↔ value.isTruthy = decide (n ≠ 0) := by
  rw [Shows, hv]

end Variable

/-- The variables show the settings, and the player sneaks or not. -/
structure Settings.Shown (sneaks : Bool) (s : Settings) (store : Store) : Prop where
  sneaking : (Expression.variableValue store "q.is_sneaking").isTruthy = sneaks
  shows : ∀ v : Variable, v.Shows (Expression.variableValue store v.name) (s v)

theorem variableValue_insert (store : Store) (x y : String) (value : Value) :
    Expression.variableValue (store.insert x value) y =
      if x = y then value else Expression.variableValue store y := by
  unfold Expression.variableValue
  rw [Dictionary.get?_insert]
  split_ifs <;> rfl

namespace EntityScripts

variable {functions : Functions} {store : Store}

/-- An integer variable with one added or taken away. -/
theorem counts_shifted {v : Variable} {n : Int} (hv : store.Counts v.name n) :
    ((n + 1).natAbs ≤ 2 ^ 53 → (shifted .add v).settled.Counts functions store (n + 1)) ∧
    ((n - 1).natAbs ≤ 2 ^ 53 → (shifted .subtract v).settled.Counts functions store (n - 1)) :=
  ⟨(Expression.counts_name hv).add (Expression.counts_int (by decide)),
    (Expression.counts_name hv).subtract (Expression.counts_int (by decide))⟩

theorem decides_isAboveTop {layer height : Int} (hlayer : store.Counts Variable.layer.name layer)
    (hheight : store.Counts Variable.structureHeight.name height) :
    isAboveTop.settled.Decides functions store (decide (height ≤ layer)) :=
  Expression.Counts.compare (show BinaryOperator.greaterEqual.onInts? = _ from rfl)
    (Expression.counts_name hlayer) (Expression.counts_name hheight)

end EntityScripts

namespace Settings

variable {functions : Functions} {sneaks : Bool} {s t u : Settings} {v : Variable}
  {e c : Expression} {n : Int} {p : Bool}

/-- A variable that is set shows its new value, and the others what they did. -/
theorem Shown.insert {store : Store} (h : s.Shown sneaks store) {value : Value}
    (hvalue : v.Shows value n) :
    Shown sneaks (Function.update s v n) (store.insert v.name value) := by
  constructor
  · rw [variableValue_insert, if_neg v.sneaking_ne_name.symm]
    exact h.sneaking
  · intro w
    rw [variableValue_insert]
    by_cases hw : w = v
    · subst hw
      rwa [if_pos rfl, Function.update_self]
    · rw [if_neg fun heq => hw (Variable.name_injective heq).symm, Function.update_of_ne hw]
      exact h.shows w

theorem Shown.counts {store : Store} (h : s.Shown sneaks store) (hv : v.kind = .counted) :
    store.Counts v.name (s v) :=
  (Variable.shows_counted hv).mp (h.shows v)

/-- In all variables that show the settings an expression is worth an integer. -/
def Gives (functions : Functions) (sneaks : Bool) (s : Settings) (e : Expression) (n : Int) :
    Prop :=
  ∀ store, s.Shown sneaks store → e.settled.Counts functions store n

/-- In all variables that show the settings a condition holds, or it does not. -/
def Decides (functions : Functions) (sneaks : Bool) (s : Settings) (c : Expression) (p : Bool) :
    Prop :=
  ∀ store, s.Shown sneaks store → c.settled.Decides functions store p

/-- Code comes to its end and changes the settings to others. -/
def Turns (functions : Functions) (sneaks : Bool) (code : Code) (s t : Settings) : Prop :=
  ∀ store, s.Shown sneaks store →
    ∃ later, code.Leaves functions store later ∧ t.Shown sneaks later

theorem turns_nil : Turns functions sneaks [] s s :=
  fun store h => ⟨store, Code.leaves_nil functions store, h⟩

theorem Turns.cons {i : Instruction Expression} {rest : Code}
    (h : Turns functions sneaks [i] s t) (h' : Turns functions sneaks rest t u) :
    Turns functions sneaks (i :: rest) s u := by
  intro store hstore
  obtain ⟨middle, hmiddle, hshown⟩ := h store hstore
  obtain ⟨later, hlater, hshown⟩ := h' middle hshown
  exact ⟨later, hmiddle.cons hlater, hshown⟩

/-- A variable takes a value that shows an integer. -/
theorem turns_set (h : ∀ store, s.Shown sneaks store →
      ∃ value, e.settled.evaluate functions store = .ok value ∧ v.Shows value n) :
    Turns functions sneaks [v.set e] s (Function.update s v n) := by
  intro store hstore
  obtain ⟨value, hvalue, hshows⟩ := h store hstore
  exact ⟨_, Code.leaves_assign hvalue, hstore.insert hshows⟩

/-- A variable that is always an integer takes one. -/
theorem Gives.turns (hv : v.kind = .counted) (h : Gives functions sneaks s e n) :
    Turns functions sneaks [v.set e] s (Function.update s v n) := by
  apply turns_set
  intro store hstore
  obtain ⟨x, hx, hint⟩ := h store hstore (Expression.evaluateText functions store)
  exact ⟨_, hx, (Variable.shows_counted hv).mpr ⟨x, rfl, hint⟩⟩

theorem Decides.turns_branch (hc : Decides functions sneaks s c p) {satisfied unsatisfied : Code}
    (h : Turns functions sneaks (if p then satisfied else unsatisfied) s t) :
    Turns functions sneaks [.branch c satisfied unsatisfied] s t := by
  intro store hstore
  obtain ⟨later, hlater, hshown⟩ := h store hstore
  exact ⟨later, Code.leaves_branch (hc store hstore) hlater, hshown⟩

theorem gives_int (hn : n.natAbs ≤ 2 ^ 53) : Gives functions sneaks s (.int n) n :=
  fun _ _ => Expression.counts_int hn

theorem gives_get (hv : v.kind = .counted) : Gives functions sneaks s v.get (s v) :=
  fun _ hstore => Expression.counts_name (hstore.counts hv)

theorem decides_asked (hv : v.kind = .asked) :
    Decides functions sneaks s v.get (decide (s v ≠ 0)) := by
  intro store hstore
  rw [← (Variable.shows_asked hv).mp (hstore.shows v)]
  exact Expression.decides_name v.name

theorem decides_counted (hv : v.kind = .counted) :
    Decides functions sneaks s v.get (decide (s v ≠ 0)) :=
  fun store hstore => (gives_get hv store hstore).decides

theorem decides_sneaking : Decides functions sneaks s EntityScripts.sneaking sneaks := by
  intro store hstore
  rw [← hstore.sneaking]
  exact Expression.decides_name "q.is_sneaking"

/-- An integer is added or taken away, with a result that is a double. -/
theorem gives_shifted (hv : v.kind = .counted) :
    ((s v + 1).natAbs ≤ 2 ^ 53 →
      Gives functions sneaks s (EntityScripts.shifted .add v) (s v + 1)) ∧
    ((s v - 1).natAbs ≤ 2 ^ 53 →
      Gives functions sneaks s (EntityScripts.shifted .subtract v) (s v - 1)) :=
  ⟨fun hn _ hstore => (EntityScripts.counts_shifted (hstore.counts hv)).1 hn,
    fun hn _ hstore => (EntityScripts.counts_shifted (hstore.counts hv)).2 hn⟩

theorem decides_compare {op : BinaryOperator} {relation : Int → Int → Bool}
    (hop : op.onInts? = some relation) (hv : v.kind = .counted) (hn : n.natAbs ≤ 2 ^ 53)
    (hp : relation (s v) n = p) : Decides functions sneaks s (v.compare op n) p := by
  subst hp
  intro store hstore
  exact (gives_get hv store hstore).compare hop (Expression.counts_int hn)

def flipped (s : Settings) (v : Variable) : Settings :=
  Function.update s v (if s v = 0 then 1 else 0)

theorem turns_toggle (hv : v.kind = .counted) :
    Turns functions sneaks [EntityScripts.toggle v] s (s.flipped v) := by
  have h : Gives functions sneaks s v.negation (if s v = 0 then 1 else 0) := by
    intro store hstore
    have hnot : v.negation.settled.Counts functions store (if decide (s v ≠ 0) then 0 else 1) :=
      (decides_counted hv store hstore).counts_not
    by_cases hzero : s v = 0
    · simpa [hzero] using hnot
    · simpa [hzero] using hnot
  exact h.turns hv

theorem turns_start (hv : v.kind = .counted) (hn : n.natAbs ≤ 2 ^ 53) :
    Turns functions sneaks [EntityScripts.start v n] s (Function.update s v n) :=
  (gives_int hn).turns hv

/-- A variable is counted up from its last value to zero. -/
theorem turns_cycle (hfunctions : functions.get? "math.mod" = none) (hv : v.kind = .counted)
    (hs : (s v + 1).natAbs ≤ 2 ^ 53) {count : Expression}
    (hcount : Gives functions sneaks s count n) (hn : n ≠ 0) :
    Turns functions sneaks [EntityScripts.cycle v count] s
      (Function.update s v ((s v + 1).tmod n)) := by
  have h : Gives functions sneaks s (.call "math.mod" [EntityScripts.shifted .add v, count])
      ((s v + 1).tmod n) :=
    fun store hstore => ((gives_shifted hv).1 hs store hstore).remainder hfunctions
      (hcount store hstore) hn hs
  exact h.turns hv

end Settings
end Hologram
