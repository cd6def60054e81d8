import Hologram.Script.Constant
import Hologram.Script.Operator

/-! Expressions of the script language as trees. -/
namespace Hologram.Script

/-- How a placeholder reaches into its value. -/
inductive Accessor where
  | index (index : Int)
  /-- The position is the value of a loop variable or of a binding. -/
  | position (variableName : String)
  | field (name : String)
  deriving DecidableEq, Repr

/-- A reference to a value that is known while compiling, possibly adjusted by a number. -/
structure Placeholder where
  name : String
  accessor : Option Accessor := none
  adjustment : Option (BinaryOperator × Constant) := none
  deriving BEq, Repr

inductive Expression where
  | int (value : Int)
  | float (value : Float)
  /-- No number, with a minus sign. A folded operation that has no result, such as an infinity less
  itself, comes to it. -/
  | indefinite
  | bool (value : Bool)
  | string (text : String)
  | name (name : String)
  | placeholder (placeholder : Placeholder)
  /-- Code that came from a binding and is not read again. -/
  | raw (text : String)
  | call (function : String) (arguments : List Expression)
  | index (target index : Expression)
  | binary (operator : BinaryOperator) (first second : Expression)
  | unary (operator : UnaryOperator) (operand : Expression)
  | conditional (condition satisfied unsatisfied : Expression)
  /-- A conditional without its second branch. -/
  | guarded (condition satisfied : Expression)
  deriving BEq, Repr

namespace Expression

/-- The negation of an operand, where a literal takes the sign itself. -/
def negate : Expression → Expression
  | int value => int (-value)
  | float value => float (-value)
  | operand => unary .negate operand

def holdsText (text part : String) : Bool :=
  let rec search : List Char → Bool
    | [] => part.toList.isEmpty
    | c :: cs => part.toList.isPrefixOf (c :: cs) || search cs
  search text.toList

mutual

/-- Whether an operator occurs in an expression, in the text of raw code included. -/
def containsOperator (operator : BinaryOperator) : Expression → Bool
  | binary op first second =>
    op == operator || containsOperator operator first || containsOperator operator second
  | unary _ operand => containsOperator operator operand
  | index target position => containsOperator operator target || containsOperator operator position
  | call _ arguments => anyContainsOperator operator arguments
  | conditional condition satisfied unsatisfied =>
    containsOperator operator condition || containsOperator operator satisfied ||
      containsOperator operator unsatisfied
  | guarded condition satisfied =>
    containsOperator operator condition || containsOperator operator satisfied
  | raw text => holdsText text operator.symbol
  | _ => false

def anyContainsOperator (operator : BinaryOperator) : List Expression → Bool
  | [] => false
  | e :: es => containsOperator operator e || anyContainsOperator operator es

end

end Expression
end Hologram.Script
