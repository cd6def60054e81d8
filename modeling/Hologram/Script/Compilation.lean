import Hologram.Script.Emission
import Hologram.Script.Parser.Procedure
import Hologram.Script.Unrolling

/-! Compilation: from the text of a procedure to the text of code. -/
namespace Hologram.Script

def compileWithin (limit : Nat) (source : String) (bindings : Bindings) :
    Except CompileError String := do
  let procedure ← Procedure.ofText source
  let code ← procedure.unroll bindings limit
  return code.text

def compile (source : String) (bindings : Bindings) : Except CompileError String :=
  compileWithin Procedure.iterationLimit source bindings

/-- The code of a text that is one expression, such as the guard of a transition. -/
def compileExpression (source : String) (bindings : Bindings) : Except CompileError String := do
  let procedure ← Procedure.ofText source
  match ← procedure.unroll bindings Procedure.iterationLimit with
  | [.eval expression] => return expression.text
  | _ => .error (.malformed 0 .notOneExpression)

end Hologram.Script
