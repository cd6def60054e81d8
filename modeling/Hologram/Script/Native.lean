import Hologram.Script.Evaluation

/-! Functions that stand in for those of the game while code is tried out. -/
namespace Hologram.Script
namespace NativeFunction

/-- Whether an argument behind the first is one of several texts. -/
def anyOf (texts : List String) : NativeFunction := fun arguments =>
  let isOne : Value → Bool
    | .string text => texts.contains text
    | .number _ => false
  .ok (Value.ofBool ((arguments.drop 1).any isOne))

/-- The same value for all arguments. -/
def constant (value : Value) : NativeFunction := fun _ => .ok value

def count : NativeFunction := fun arguments => .ok (.number (Float.ofNat arguments.length))

def first : NativeFunction
  | value :: _ => .ok value
  | [] => .error (.unsupported "no arguments")

end NativeFunction
end Hologram.Script
