import Hologram.Script.Evaluation
import Hologram.Script.Unrolling

/-! Running a procedure as it is written. Nothing is unrolled and nothing is substituted first: a
loop runs its body for one integer after the other, and a placeholder is looked up when the
expression around it is evaluated. -/
namespace Hologram.Script

namespace Constant

/-- The item at a position: of a sequence by number, of a mapping by the number as a name. -/
def at? : Constant → Int → Option Constant
  | sequence items, position => if 0 ≤ position then items[position.toNat]? else none
  | mapping fields, position => Dictionary.get? fields (toString position)
  | _, _ => none

def named? : Constant → String → Option Constant
  | mapping fields, name => Dictionary.get? fields name
  | _, _ => none

/-- The integer that adjusting an integer by another gives, when there is one of 64 bits. -/
def adjustedWhole? (operator : BinaryOperator) : Constant → Constant → Option Int
  | int first, int second => adjustedInt? operator first second
  | _, _ => none

/-- The double that adjusting a number by another gives. -/
def adjustedDouble? (operator : BinaryOperator) (first second : Constant) : Option Float := do
  adjustedFloat? operator (← first.toFloat?) (← second.toFloat?)

/-- A number adjusted by another: an integer where possible, else a double. -/
def adjusted? (operator : BinaryOperator) (first second : Constant) : Option Constant :=
  match adjustedWhole? operator first second with
  | some n => some (int n)
  | none => (adjustedDouble? operator first second).map float

variable (functions : Functions) (store : Store)

/-- What a constant is worth while code runs. Code is evaluated there and then. -/
def worth : Constant → Except EvalError Value
  | int value => .ok (.number (Float.ofInt value))
  | float value => .ok (.number value)
  | indefinite => .ok (.number Number.missing)
  | bool value => .ok (Value.ofBool value)
  | code text => Expression.evaluateText functions store text
  | sequence _ | mapping _ => .error (.unsupported "a value with parts")

/-- What an adjusted constant is worth while code runs. Numbers are adjusted at once, code is the
first operand of an operation. -/
def adjustedWorth (value : Constant) (operator : BinaryOperator) (operand : Constant) :
    Except EvalError Value :=
  match value with
  | code text =>
    (Expression.binary operator (.raw text) operand.toExpression).evaluate functions store
  | value => match value.adjusted? operator operand with
    | some result => result.worth functions store
    | none => .error (.unsupported "an adjustment of what is no number")

end Constant

namespace Accessor

variable (bindings : Bindings) (scope : Scope)

/-- What an accessor leads to inside a value. A loop variable goes before a binding of its name. -/
def reach? (value : Constant) : Accessor → Option Constant
  | index place => value.at? place
  | position variableName => match scope.get? variableName with
    | some place => value.at? place
    | none => ((bindings.get? variableName).bind Constant.toInt?).bind value.at?
  | field name => value.named? name

end Accessor

namespace Placeholder

variable (bindings : Bindings) (scope : Scope)

/-- What the name of a placeholder stands for. A loop variable goes before a binding of its name. -/
def named? (name : String) : Option Constant :=
  match scope.get? name with
  | some value => some (.int value)
  | none => bindings.get? name

/-- What a placeholder stands for before it is adjusted. -/
def constant? (p : Placeholder) : Option Constant :=
  match p.accessor with
  | none => named? bindings scope p.name
  | some accessor => (named? bindings scope p.name).bind (accessor.reach? bindings scope)

/-- What a placeholder is worth while code runs. -/
def worth (functions : Functions) (store : Store) (p : Placeholder) : Except EvalError Value :=
  match p.constant? bindings scope, p.adjustment with
  | none, _ => .error (.unresolvedPlaceholder p.name)
  | some value, none => value.worth functions store
  | some value, some (operator, operand) => value.adjustedWorth functions store operator operand

/-- The integer that a placeholder stands for as the bound of a loop. -/
def bound? (p : Placeholder) : Option Int := do
  let value ← p.constant? bindings scope
  match p.adjustment with
  | none => value.toInt?
  | some (operator, operand) => (← value.adjusted? operator operand).toInt?

end Placeholder

namespace Expression

variable (bindings : Bindings) (scope : Scope) (functions : Functions) (store : Store)

mutual

/-- The value of an expression inside the loops whose variables are in `scope`. -/
def meaning : Expression → Except EvalError Value
  | int value => .ok (.number (Float.ofInt value))
  | float value => .ok (.number value)
  | indefinite => .ok (.number Number.missing)
  | bool value => .ok (Value.ofBool value)
  | string text => .ok (.string text)
  | name variableName => match scope.get? variableName with
    | some value => .ok (.number (Float.ofInt value))
    | none => .ok (variableValue store variableName)
  | placeholder p => p.worth bindings scope functions store
  | raw text => evaluateText functions store text
  | call function arguments => do
    let arguments ← meanings arguments
    callFunction functions function arguments
  | index _ _ => .error .indexing
  | binary .coalesce (name variableName) second => match scope.get? variableName with
    | some value => .ok (.number (Float.ofInt value))
    | none => match store.get? variableName with
      | some value => .ok value
      | none => meaning second
  | binary .coalesce first _ => meaning first
  | binary .or first second => do
    if (← meaning first).isTruthy then return Value.ofBool true
    return Value.ofBool (← meaning second).isTruthy
  | binary .and first second => do
    if !(← meaning first).isTruthy then return Value.ofBool false
    return Value.ofBool (← meaning second).isTruthy
  | binary operator first second => do
    let first ← meaning first
    let second ← meaning second
    operator.apply first second
  | unary .not operand => do
    return Value.ofBool (!(← meaning operand).isTruthy)
  | unary .negate operand => do
    return .number (-(← (← meaning operand).toFloat))
  | conditional condition satisfied unsatisfied => do
    if (← meaning condition).isTruthy then meaning satisfied else meaning unsatisfied
  | guarded condition satisfied => do
    if (← meaning condition).isTruthy then meaning satisfied else return .number 0.0

def meanings : List Expression → Except EvalError (List Value)
  | [] => .ok []
  | e :: es => do
    let value ← meaning e
    let values ← meanings es
    return value :: values

end

/-- The integer that a bound of a loop stands for, if it is known while compiling. -/
def bound? : Expression → Option Int
  | int value => some value
  | float value => Constant.wholeOf? value
  | name variableName => scope.get? variableName
  | placeholder p => p.bound? bindings scope
  | _ => none

end Expression

namespace Program

/-- Runs one part of a block after another, unless the first part returns. -/
def andThen (first second : Run Flow) : Run Flow := do
  match ← first with
  | .proceeds => second
  | .returned value => return .returned value

/-- Runs a body for `count` integers in ascending order, unless it returns before. -/
def forEach (body : Int → Run Flow) (first : Int) : Nat → Run Flow
  | 0 => return .proceeds
  | count + 1 => andThen (body first) (forEach body (first + 1) count)

end Program

namespace Procedure
open Program

variable (bindings : Bindings) (functions : Functions)

/-- The value of an expression in the present store, inside the loops of `scope`. -/
def meaningOf (scope : Scope) (e : Expression) : Run Value := do
  let store ← get
  ExceptT.mk (pure (e.meaning bindings scope functions store))

mutual

/-- Runs a statement inside the loops of `scope`. -/
def runStatement (scope : Scope) : Statement → Run Flow
  | .assign (.name target) operator value => do
    let value := match operator with
      | some operator => .binary operator (.name target) value
      | none => value
    let value ← meaningOf bindings functions scope value
    modify fun store => store.insert target value
    return .proceeds
  | .assign _ _ _ => throw (.unsupported "an assignment to no variable")
  | .eval expression => do
    let _ ← meaningOf bindings functions scope expression
    return .proceeds
  | .returns none => return .returned none
  | .returns (some value) => do
    return .returned (some (← meaningOf bindings functions scope value))
  | .guarded condition satisfied => do
    if (← meaningOf bindings functions scope condition).isTruthy then runStatements scope satisfied
    else return .proceeds
  | .branch condition satisfied unsatisfied => do
    if (← meaningOf bindings functions scope condition).isTruthy then runStatements scope satisfied
    else runStatements scope unsatisfied
  | .loop variableName first last inclusive body =>
    match first.bound? bindings scope, last.bound? bindings scope with
    | some first, some last =>
      let beyond := if inclusive then last + 1 else last
      forEach (fun value => runStatements ((variableName, value) :: scope) body) first
        (beyond - first).toNat
    | _, _ => throw (.unsupported "a loop without constant bounds")

def runStatements (scope : Scope) : List Statement → Run Flow
  | [] => return .proceeds
  | s :: rest => andThen (runStatement scope s) (runStatements scope rest)

end

/-- Runs a procedure from a store: the value it returns or its failure, and the store it leaves. -/
def execute (procedure : Procedure) (store : Store) : Except EvalError (Option Value) × Store :=
  let (outcome, store) := (runStatements bindings functions [] procedure).run store
  (outcome.map Flow.value?, store)

mutual

/-- What a statement has to keep to inside the loops of `scope`: it assigns to no loop variable and
to nothing but variables, and the bound of a loop that includes it is a number of 64 bits below the
greatest. -/
def Proper (scope : Scope) : Statement → Prop
  | .assign target _ _ => ∃ variableName, target = .name variableName ∧
      scope.get? variableName = none
  | .guarded _ satisfied => AllProper scope satisfied
  | .branch _ satisfied unsatisfied => AllProper scope satisfied ∧ AllProper scope unsatisfied
  | .loop variableName first last inclusive body =>
    ∀ low high, first.bound? bindings scope = some low → last.bound? bindings scope = some high →
      (inclusive = true → Number.Width.bits64.least ≤ high ∧ high < Number.Width.bits64.greatest) ∧
      ∀ value, low ≤ value → value < (if inclusive then high + 1 else high) →
        AllProper ((variableName, value) :: scope) body
  | _ => True

/-- What several statements have to keep to. -/
def AllProper (scope : Scope) : List Statement → Prop
  | [] => True
  | s :: rest => Proper scope s ∧ AllProper scope rest

end

end Procedure

mutual

/-- An instruction with a variable in the place of every target, if every target is one. -/
def Instruction.named? : Instruction Expression → Option (Instruction String)
  | .assign (.name target) value => some (.assign target value)
  | .assign _ _ => none
  | .eval expression => some (.eval expression)
  | .returns value => some (.returns value)
  | .branch condition satisfied unsatisfied => do
    let satisfied ← Code.program? satisfied
    let unsatisfied ← Code.program? unsatisfied
    return .branch condition satisfied unsatisfied

/-- Code with a variable in the place of every target, if every target is one. -/
def Code.program? : List (Instruction Expression) → Option (List (Instruction String))
  | [] => some []
  | i :: rest => do
    let i ← Instruction.named? i
    let rest ← Code.program? rest
    return i :: rest

end

end Hologram.Script
