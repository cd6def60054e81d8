import Hologram.Script.Error
import Hologram.Script.Procedure

/-! From written statements to code. Loops are unrolled in ascending order, and every placeholder
and loop variable gives way to its value. All loops of a procedure share one allowance of
iterations. -/
namespace Hologram.Script

/-- The loop variables in reach, the innermost first. -/
abbrev Scope := List (String × Int)

namespace Scope

/-- The value of a loop variable; an inner loop hides an outer one of its name. -/
def get? (scope : Scope) (name : String) : Option Int :=
  List.lookup name scope

@[simp] theorem get?_push (scope : Scope) (name : String) (value : Int) :
    get? ((name, value) :: scope) name = some value := by
  simp [get?]

end Scope

namespace Constant

def toExpression : Constant → Expression
  | int value => .int value
  | float value => .float value
  | indefinite => .indefinite
  | bool value => .bool value
  | code text => .raw text
  | value => .raw value.text

/-- The integer result of an adjustment, when there is one of 64 bits. -/
def adjustedInt? (operator : BinaryOperator) (first second : Int) : Option Int :=
  let fitting (n : Int) : Option Int := if Number.Width.bits64.holds n then some n else none
  match operator with
  | .add => fitting (first + second)
  | .subtract => fitting (first - second)
  | .multiply => fitting (first * second)
  | .divide => if second ≠ 0 ∧ first.tmod second = 0 then fitting (first.tdiv second) else none
  | _ => none

def adjustedFloat? (operator : BinaryOperator) (first second : Float) : Option Float :=
  match operator with
  | .add => some (first + second)
  | .subtract => some (first - second)
  | .multiply => some (first * second)
  | .divide => some (first / second)
  | _ => none

/-- The expression for the result of an operation. An operand that is no number comes through with
its sign, the first of two, while an operation on numbers that has no result is indefinite. -/
def folded (first second : Constant) (result : Float) : Expression :=
  if result.isNaN then
    match [first, second].find? isMissing with
    | some operand => operand.toExpression
    | none => .indefinite
  else .float result

/-- A value adjusted by an operand. Numbers fold, code keeps the operation for later. -/
def adjust (name : String) (value : Constant) (operator : BinaryOperator) (operand : Constant) :
    Except CompileError Expression :=
  match value with
  | code text => .ok (.binary operator (.raw text) operand.toExpression)
  | value =>
    let whole? : Option Int := match value, operand with
      | int first, int second => adjustedInt? operator first second
      | _, _ => none
    match whole? with
    | some n => .ok (.int n)
    | none =>
      let result? : Option Float := do
        adjustedFloat? operator (← value.toFloat?) (← operand.toFloat?)
      match result? with
      | some result => .ok (folded value operand result)
      | none => .error (.nonNumericAdjustment name operator)

/-- The item at a position: of a sequence by number, of a mapping by the number as a name. -/
def item (name : String) (value : Constant) (index : Int) : Except CompileError Constant :=
  match value with
  | sequence items =>
    let found? : Option Constant := if 0 ≤ index then items[index.toNat]? else none
    match found? with
    | some found => .ok found
    | none => .error (.indexOutOfRange name index items.length)
  | mapping fields => match Dictionary.get? fields (toString index) with
    | some found => .ok found
    | none => .error (.fieldNotFound name (toString index))
  | value => .error (.notIndexable name value.kind)

def field (name : String) (value : Constant) (key : String) : Except CompileError Constant :=
  match value with
  | mapping fields => match Dictionary.get? fields key with
    | some found => .ok found
    | none => .error (.fieldNotFound name key)
  | value => .error (.notIndexable name value.kind)

end Constant

namespace Placeholder

/-- What the name of a placeholder stands for: a loop variable before a binding. -/
def base? (bindings : Bindings) (scope : Scope) (name : String) : Option Constant :=
  match scope.get? name with
  | some value => some (.int value)
  | none => bindings.get? name

def position? (bindings : Bindings) (scope : Scope) (name : String) : Option Int :=
  match scope.get? name with
  | some value => some value
  | none => (bindings.get? name).bind Constant.toInt?

def access (bindings : Bindings) (scope : Scope) (name : String) (value : Constant) :
    Accessor → Except CompileError Constant
  | .index index => value.item name index
  | .position variableName => match position? bindings scope variableName with
    | some index => value.item name index
    | none => .error (.unresolvedBinding variableName)
  | .field key => value.field name key

/-- The expression that takes the place of a placeholder. -/
def resolve (bindings : Bindings) (scope : Scope) (p : Placeholder) :
    Except CompileError Expression := do
  let base ← match base? bindings scope p.name with
    | some value => .ok value
    | none => .error (.unresolvedBinding p.name)
  let value ← match p.accessor with
    | none => .ok base
    | some accessor => access bindings scope p.name base accessor
  if value.isScalar then
    match p.adjustment with
    | none => return value.toExpression
    | some (operator, operand) => value.adjust p.name operator operand
  else .error (.notScalar p.name)

end Placeholder

namespace Expression

variable (bindings : Bindings) (scope : Scope)

mutual

/-- An expression without placeholders and loop variables. -/
def resolve : Expression → Except CompileError Expression
  | name variableName => match scope.get? variableName with
    | some value => .ok (int value)
    | none => .ok (name variableName)
  | placeholder p => p.resolve bindings scope
  | call function arguments => do
    return call function (← resolveAll arguments)
  | index target position => do
    let target ← resolve target
    let position ← resolve position
    return index target position
  | binary operator first second => do
    let first ← resolve first
    let second ← resolve second
    return binary operator first second
  | unary operator operand => do
    return unary operator (← resolve operand)
  | conditional condition satisfied unsatisfied => do
    let condition ← resolve condition
    let satisfied ← resolve satisfied
    let unsatisfied ← resolve unsatisfied
    return conditional condition satisfied unsatisfied
  | guarded condition satisfied => do
    let condition ← resolve condition
    let satisfied ← resolve satisfied
    return guarded condition satisfied
  | literal => .ok literal

def resolveAll : List Expression → Except CompileError (List Expression)
  | [] => .ok []
  | e :: es => do
    let e ← resolve e
    let es ← resolveAll es
    return e :: es

end

def boundOf (variableName : String) : Expression → Except CompileError Int
  | int value => .ok value
  | float value => match Constant.wholeOf? value with
    | some value => .ok value
    | none => .error (.nonConstantBound variableName)
  | _ => .error (.nonConstantBound variableName)

end Expression

namespace Procedure

/-- A computation that uses up iterations and may fail. -/
abbrev Unroll := StateT Nat (Except CompileError)

/-- How many iterations a loop from `first` to `last` has. -/
def iterations (first last : Int) : Nat :=
  (Number.Width.bits64.saturate (last - first)).toNat

def spend (variableName : String) (count : Nat) : Unroll Unit := do
  let left ← get
  if left < count then throw (.unsupportedLoop (.tooLong variableName count left))
  set (left - count)

/-- Runs a computation once for each integer from `first` up to but without `last`. -/
def forRange (first last : Int) (body : Int → Unroll Code) : Unroll Code := do
  let parts ← (List.range (last - first).toNat).mapM fun (i : Nat) => body (first + i)
  return parts.flatten

variable (bindings : Bindings)

mutual

def unrollStatement (scope : Scope) : Statement → Unroll Code
  | .assign target operator value => do
    let target ← target.resolve bindings scope
    let value ← value.resolve bindings scope
    let value := match operator with
      | some operator => .binary operator target value
      | none => value
    return [.assign target value]
  | .eval expression => do
    return [.eval (← expression.resolve bindings scope)]
  | .returns none => return [.returns none]
  | .returns (some value) => do
    return [.returns (some (← value.resolve bindings scope))]
  | .guarded condition satisfied => do
    let condition ← condition.resolve bindings scope
    let satisfied ← unrollBlock scope satisfied
    return [.branch condition satisfied []]
  | .branch condition satisfied unsatisfied => do
    let condition ← condition.resolve bindings scope
    let satisfied ← unrollBlock scope satisfied
    let unsatisfied ← unrollBlock scope unsatisfied
    return [.branch condition satisfied unsatisfied]
  | .loop variableName first last inclusive body => do
    let first ← (← first.resolve bindings scope).boundOf variableName
    let last ← (← last.resolve bindings scope).boundOf variableName
    let last := if inclusive then Number.Width.bits64.saturate (last + 1) else last
    spend variableName (iterations first last)
    forRange first last fun value => unrollBlock ((variableName, value) :: scope) body

def unrollBlock (scope : Scope) : List Statement → Unroll Code
  | [] => return []
  | s :: rest => do
    let code ← unrollStatement scope s
    let further ← unrollBlock scope rest
    return code ++ further

end

/-- How many iterations a procedure may unroll unless it is told otherwise. -/
def iterationLimit : Nat := 0x10000

def unroll (limit : Nat) (procedure : Procedure) : Except CompileError Code := do
  let (code, _) ← (unrollBlock bindings [] procedure).run limit
  return code

end Procedure
end Hologram.Script
