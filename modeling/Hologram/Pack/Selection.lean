import Hologram.Pack.Animation
import Hologram.Pack.Controller

/-! The controller that shows the animation of the selected structure. It steps through the
structures until it comes to that one. -/
namespace Hologram

namespace Selection

def state (index : Nat) : String :=
  "s_" ++ toString index

/-- The state of a structure among several. A lone structure is never left. -/
def stateOf (count index : Nat) : ControllerState where
  animations := [animationShortName index]
  transitions :=
    if 1 < count then
      [.when (state ((index + 1) % count)) (Variable.structureIndex.compare .notEqual index)]
    else []

/-- The controller that selects among some structures. -/
def controller (count : Nat) : Controller :=
  let states := (List.range count).map fun index => (state index, stateOf count index)
  ⟨state 0, if states.isEmpty then [(state 0, {})] else states⟩

end Selection
end Hologram
