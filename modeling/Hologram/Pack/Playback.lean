import Hologram.Pack.Basic
import Hologram.Script.Native

/-! Playing a pack: what the game does with its scripts, controllers and scales, frame by frame. -/
namespace Hologram

open Script

structure Frame where
  /-- The names of the held item. -/
  held : List String := []
  /-- The tags of the held item. -/
  tags : List String := []
  /-- The variables that the game sets. -/
  given : List (String × Value) := []

/-- A hologram while it is played: its variables, and the state of each controller. -/
structure Playback where
  store : Store := []
  states : Dictionary String := []

structure FrameResult where
  /-- Why the script of the frame stopped early, if it did. -/
  failure : Option EvalError
  /-- The runs of the controllers, in the order of their names. -/
  runs : List Controller.Run

namespace Frame

/-- What the game answers to the queries for the held item. -/
def functions (frame : Frame) : Functions :=
  [(ItemCriteria.nameQuery, NativeFunction.anyOf frame.held),
    (ItemCriteria.tagQuery, NativeFunction.anyOf frame.tags)]

end Frame

namespace Playback

def failure? {α : Type} : Except EvalError α → Option EvalError
  | .error error => some error
  | .ok _ => none

/-- A hologram at the start, and why its first script stopped early, if it did. The game answers no
queries yet. -/
def start (p : Pack) : Option EvalError × Playback :=
  let (outcome, store) := Program.executeText [] p.scripts.setup.text []
  (failure? outcome, ⟨store, p.controllers.map fun (name, c) => (name, c.initial)⟩)

/-- The run of a controller from the state that it was left in. -/
def runController (playback : Playback) (functions : Functions) (name : String) (c : Controller) :
    Controller.Run :=
  c.run functions playback.store ((playback.states.get? name).getD c.initial)

/-- One frame: the game sets variables, the script of the frame runs, and the controllers follow. -/
def advance (p : Pack) (playback : Playback) (frame : Frame) : FrameResult × Playback :=
  let given : Store := frame.given.foldl (fun store (name, value) => store.insert name value)
    playback.store
  let (outcome, store) := Program.executeText frame.functions p.scripts.frame.text given
  let playback := { playback with store }
  let runs := p.controllers.sorted.map fun (name, c) =>
    (name, playback.runController frame.functions name c)
  let states := runs.foldl (fun (states : Dictionary String) (name, run) =>
    (run.last?.map fun last => states.insert name last).getD states) playback.states
  (⟨failure? outcome, runs.map (·.2)⟩, { playback with states })

/-- The scale of a bone in the first animation that moves it. -/
def scale? (p : Pack) (playback : Playback) (frame : Frame) (bone : String) :
    Option (Except EvalError Value) :=
  (p.animations.findSome? fun a => a.bones.get? bone).map fun motion =>
    Expression.evaluateText frame.functions playback.store motion.scale

end Playback
end Hologram
