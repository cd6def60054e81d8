import Hologram.Json
import Hologram.Script.Emission
import Hologram.Script.Evaluation

/-! Animation controllers: states with guarded transitions, and the states that they pass through
until no guard holds. -/
namespace Hologram

open Script

/-- A way to another state, taken when the guard holds. -/
structure Transition where
  target : String
  /-- The code of the guard. -/
  guard : String
  deriving DecidableEq, Repr

/-- A particle effect that is shown in a state, after a script of its own. -/
structure ParticleEffect where
  effect : String
  locator : String
  script : String
  deriving DecidableEq, Repr

structure ControllerState where
  animations : List String := []
  effects : List ParticleEffect := []
  /-- Of several transitions whose guards hold the first one is taken. -/
  transitions : List Transition := []
  deriving DecidableEq, Repr

/-- A controller: its states under their names, and the name of the first one. -/
structure Controller where
  initial : String
  states : Dictionary ControllerState
  deriving DecidableEq, Repr

namespace Transition

/-- The transition to a state under the guard that an expression is. -/
def when (target : String) (guard : Expression) : Transition :=
  ⟨target, guard.text⟩

def toJson (t : Transition) : Json :=
  .object [(t.target, .string t.guard)]

end Transition

def ParticleEffect.toJson (e : ParticleEffect) : Json :=
  .object [
    ("effect", .string e.effect),
    ("locator", .string e.locator),
    ("pre_effect_script", .string e.script)]

/-- A state in a document. Only the transitions show when there are none. -/
def ControllerState.toJson (s : ControllerState) : Json :=
  .object <|
    (if s.animations.isEmpty then [] else [("animations", .ofStrings s.animations)]) ++
      (if s.effects.isEmpty then []
        else [("particle_effects", .array (s.effects.map ParticleEffect.toJson))]) ++
      [("transitions", .array (s.transitions.map Transition.toJson))]

namespace Controller

def state? (c : Controller) (name : String) : Option ControllerState :=
  c.states.get? name

/-- A controller in a document, states in the order of their names. -/
def toJson (c : Controller) : Json :=
  .object [
    ("initial_state", .string c.initial),
    ("states", .object (c.states.sorted.map fun (name, state) => (name, state.toJson)))]

inductive RunEnd where
  /-- No guard of the last state holds. -/
  | settled
  /-- The run took as many transitions as it may. -/
  | cycling
  /-- The controller does not have the last state. -/
  | missingState
  /-- A guard of the last state has no value. -/
  | failed (error : EvalError)
  deriving DecidableEq, Repr

/-- A run through states: those that it visits, and how it ends. -/
structure Run where
  path : List String
  ending : RunEnd
  deriving DecidableEq, Repr

variable (functions : Functions) (store : Store)

/-- The first transition whose guard holds. A guard that fails before one holds is an error. -/
def enabled? : List Transition → Except EvalError (Option Transition)
  | [] => .ok none
  | t :: rest => do
    if (← Expression.evaluateText functions store t.guard).isTruthy then return some t
    enabled? rest

/-- The run from a state that takes at most `steps` transitions. -/
def runWithin (c : Controller) : Nat → String → Run
  | 0, name => ⟨[name], .cycling⟩
  | steps + 1, name => match c.state? name with
    | none => ⟨[name], .missingState⟩
    | some state => match enabled? functions store state.transitions with
      | .error error => ⟨[name], .failed error⟩
      | .ok none => ⟨[name], .settled⟩
      | .ok (some t) =>
        let further := runWithin c steps t.target
        { further with path := name :: further.path }

/-- The run from a state. A run that takes more transitions than there are states goes in
circles. -/
def run (c : Controller) (start : String) : Run :=
  c.runWithin functions store (c.states.length + 1) start

def Run.last? (r : Run) : Option String :=
  r.path.getLast?

end Controller
end Hologram
