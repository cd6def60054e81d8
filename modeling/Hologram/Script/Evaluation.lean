import Hologram.Script.Parser.Program

/-! Running code. Truth values are numbers, and a variable that has no value reads as zero. -/
namespace Hologram.Script

inductive Value where
  | number (value : Float)
  | string (text : String)
  deriving DecidableEq, Repr

namespace Value

def ofBool (b : Bool) : Value :=
  .number (if b then 1.0 else 0.0)

/-- Whether a value counts as true: every number but zero, and every text but the empty one. -/
def isTruthy : Value → Bool
  | number value => value != 0.0
  | string text => !text.isEmpty

def toFloat? : Value → Option Float
  | number value => some value
  | string _ => none

def text : Value → String
  | number value => Number.plainText value
  | string text => "'" ++ text ++ "'"

def toFloat (value : Value) : Except EvalError Float :=
  match value.toFloat? with
  | some x => .ok x
  | none => .error (.numberExpected value.text)

end Value

abbrev Store := Dictionary Value

/-- The number that a variable has; a variable without a number has zero. -/
def Store.number (store : Store) (variableName : String) : Float :=
  ((store.get? variableName).bind Value.toFloat?).getD 0.0

abbrev NativeFunction := List Value → Except EvalError Value

abbrev Functions := Dictionary NativeFunction

/-- What the name of a built-in function stands for, when it is one of one number. -/
def unaryMath? (function : String) : Option (Float → Float) :=
  if function = "math.floor" then some Number.floor
  else if function = "math.ceil" then some Number.ceil
  else if function = "math.round" then some Number.round
  else if function = "math.abs" then some Float.abs
  else none

/-- What the name of a built-in function stands for, when it is one of two numbers. -/
def binaryMath? (function : String) : Option (Float → Float → Float) :=
  if function = "math.mod" then some Number.remainder
  else if function = "math.min" then some Number.least
  else if function = "math.max" then some Number.greatest
  else none

/-- The result of a built-in function. Further arguments are not looked at. -/
def callMath (function : String) (numbers : List Float) : Except EvalError Value :=
  match unaryMath? function, binaryMath? function with
  | some f, _ => match numbers with
    | x :: _ => .ok (.number (f x))
    | [] => .error (.argumentsExpected function 1)
  | none, some f => match numbers with
    | x :: y :: _ => .ok (.number (f x y))
    | [_] => .error (.argumentsExpected function 2)
    | [] => .error (.argumentsExpected function 1)
  | none, none => .error (.unknownFunction function)

/-- The result of a function; what the surroundings provide goes before what is built in. -/
def callFunction (functions : Functions) (function : String) (arguments : List Value) :
    Except EvalError Value :=
  match functions.get? function with
  | some native => native arguments
  | none => do
    let numbers ← arguments.mapM Value.toFloat
    callMath function numbers

namespace BinaryOperator

def onStrings (operator : BinaryOperator) (a b : String) : Except EvalError Value :=
  match operator with
  | .equal => .ok (Value.ofBool (a == b))
  | .notEqual => .ok (Value.ofBool (a != b))
  | _ => .error (.stringOperator operator)

def onNumbers (operator : BinaryOperator) (a b : Float) : Value :=
  match operator with
  | .equal => Value.ofBool (a == b)
  | .notEqual => Value.ofBool (a != b)
  | .less => Value.ofBool (a < b)
  | .lessEqual => Value.ofBool (a ≤ b)
  | .greater => Value.ofBool (b < a)
  | .greaterEqual => Value.ofBool (b ≤ a)
  | .add => .number (a + b)
  | .subtract => .number (a - b)
  | .multiply => .number (a * b)
  | .divide => .number (a / b)
  | .modulo => .number (Number.remainder a b)
  | .coalesce => .number a
  | .or => Value.ofBool (a != 0.0 || b != 0.0)
  | .and => Value.ofBool (a != 0.0 && b != 0.0)

/-- The result of an operator that needs both operands. -/
def apply (operator : BinaryOperator) (first second : Value) : Except EvalError Value :=
  match first, second with
  | .string a, .string b => operator.onStrings a b
  | first, second => do
    let a ← first.toFloat
    let b ← second.toFloat
    return operator.onNumbers a b

end BinaryOperator

namespace Expression

variable (functions : Functions) (store : Store)

def variableValue (variableName : String) : Value :=
  (store.get? variableName).getD (.number 0.0)

mutual

/-- The value of an expression, where `rawValue` gives the values of raw code. -/
def evaluateWith (rawValue : String → Except EvalError Value) : Expression → Except EvalError Value
  | int value => .ok (.number (Float.ofInt value))
  | float value => .ok (.number value)
  | indefinite => .ok (.number Number.missing)
  | bool value => .ok (Value.ofBool value)
  | string text => .ok (.string text)
  | name variableName => .ok (variableValue store variableName)
  | placeholder p => .error (.unresolvedPlaceholder p.name)
  | raw text => rawValue text
  | call function arguments => do
    let arguments ← evaluateAllWith rawValue arguments
    callFunction functions function arguments
  | index _ _ => .error .indexing
  | binary .coalesce (name variableName) second => match store.get? variableName with
    | some value => .ok value
    | none => evaluateWith rawValue second
  | binary .coalesce first _ => evaluateWith rawValue first
  | binary .or first second => do
    if (← evaluateWith rawValue first).isTruthy then return Value.ofBool true
    return Value.ofBool (← evaluateWith rawValue second).isTruthy
  | binary .and first second => do
    if !(← evaluateWith rawValue first).isTruthy then return Value.ofBool false
    return Value.ofBool (← evaluateWith rawValue second).isTruthy
  | binary operator first second => do
    let first ← evaluateWith rawValue first
    let second ← evaluateWith rawValue second
    operator.apply first second
  | unary .not operand => do
    return Value.ofBool (!(← evaluateWith rawValue operand).isTruthy)
  | unary .negate operand => do
    return .number (-(← (← evaluateWith rawValue operand).toFloat))
  | conditional condition satisfied unsatisfied => do
    if (← evaluateWith rawValue condition).isTruthy then evaluateWith rawValue satisfied
    else evaluateWith rawValue unsatisfied
  | guarded condition satisfied => do
    if (← evaluateWith rawValue condition).isTruthy then evaluateWith rawValue satisfied
    else return .number 0.0

def evaluateAllWith (rawValue : String → Except EvalError Value) :
    List Expression → Except EvalError (List Value)
  | [] => .ok []
  | e :: es => do
    let value ← evaluateWith rawValue e
    let values ← evaluateAllWith rawValue es
    return value :: values

end

theorem evaluateWith_name (rawValue : String → Except EvalError Value) (x : String) :
    (name x).evaluateWith functions store rawValue = .ok (variableValue store x) := by
  rw [evaluateWith]

/-- The value of the expression that a text spells. Reading a text gives no raw code, so the values
of raw code inside are never asked for. -/
def evaluateText (text : String) : Except EvalError Value :=
  match Expression.ofText text with
  | .ok e => e.evaluateWith functions store fun _ => .error (.unsupported "raw code in raw code")
  | .error error => .error (.parse error)

def evaluate (e : Expression) : Except EvalError Value :=
  e.evaluateWith functions store (evaluateText functions store)

end Expression

/-- How a block ends: it runs to its end, or a return statement ends it. -/
inductive Flow where
  | proceeds
  | returned (value : Option Value)
  deriving DecidableEq, Repr

namespace Flow

def value? : Flow → Option Value
  | proceeds => none
  | returned value => value

end Flow

namespace Program

/-- A run of code: it may fail, and it keeps the assignments that were made before. -/
abbrev Run := ExceptT EvalError (StateM Store)

variable (functions : Functions)

def valueOf (e : Expression) : Run Value := do
  let store ← get
  ExceptT.mk (pure (e.evaluate functions store))

mutual

def runInstruction : Instruction String → Run Flow
  | .assign target value => do
    let value ← valueOf functions value
    modify fun store => store.insert target value
    return .proceeds
  | .eval expression => do
    let _ ← valueOf functions expression
    return .proceeds
  | .returns none => return .returned none
  | .returns (some value) => do
    return .returned (some (← valueOf functions value))
  | .branch condition satisfied unsatisfied => do
    if (← valueOf functions condition).isTruthy then runBlock satisfied
    else runBlock unsatisfied

/-- Runs the instructions of a block until one returns. -/
def runBlock : List (Instruction String) → Run Flow
  | [] => return .proceeds
  | i :: rest => do
    match ← runInstruction i with
    | .proceeds => runBlock rest
    | .returned value => return .returned value

end

/-- Runs code from a store: the value it returns or its failure, and the store it leaves. -/
def execute (program : Program) (store : Store) : Except EvalError (Option Value) × Store :=
  let (outcome, store) := (runBlock functions program).run store
  (outcome.map Flow.value?, store)

/-- Runs the code that a text spells. -/
def executeText (text : String) (store : Store) : Except EvalError (Option Value) × Store :=
  match Program.ofText text with
  | .ok program => execute functions program store
  | .error error => (.error (.parse error), store)

end Program
end Hologram.Script
