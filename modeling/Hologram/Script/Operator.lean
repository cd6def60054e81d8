/-! The operators of the script language and how tightly they bind. -/
namespace Hologram.Script

inductive BinaryOperator where
  | coalesce
  | or
  | and
  | equal
  | notEqual
  | less
  | lessEqual
  | greater
  | greaterEqual
  | add
  | subtract
  | multiply
  | divide
  | modulo
  deriving DecidableEq, Repr

namespace BinaryOperator

/-- Every operator, from the loosest to the tightest. -/
def all : List BinaryOperator :=
  [.coalesce, .or, .and, .equal, .notEqual, .less, .lessEqual, .greater, .greaterEqual,
    .add, .subtract, .multiply, .divide, .modulo]

def symbol : BinaryOperator → String
  | .coalesce => "??"
  | .or => "||"
  | .and => "&&"
  | .equal => "=="
  | .notEqual => "!="
  | .less => "<"
  | .lessEqual => "<="
  | .greater => ">"
  | .greaterEqual => ">="
  | .add => "+"
  | .subtract => "-"
  | .multiply => "*"
  | .divide => "/"
  | .modulo => "%"

def ofSymbol? (text : String) : Option BinaryOperator :=
  all.find? fun operator => operator.symbol == text

/-- How tightly an operator holds its operands. -/
def precedence : BinaryOperator → Nat
  | .coalesce => 1
  | .or => 2
  | .and => 3
  | .equal | .notEqual => 4
  | .less | .lessEqual | .greater | .greaterEqual => 5
  | .add | .subtract => 6
  | .multiply | .divide | .modulo => 7

/-- Whether an operator adds or subtracts, so that a sign may not follow it directly. -/
def isAdditive : BinaryOperator → Bool
  | .add | .subtract => true
  | _ => false

/-- An operator's text determines it. -/
@[simp] theorem ofSymbol?_symbol (operator : BinaryOperator) :
    ofSymbol? operator.symbol = some operator := by
  cases operator <;> decide

/-- The loosest operator has precedence one. -/
theorem one_le_precedence (operator : BinaryOperator) : 1 ≤ operator.precedence := by
  cases operator <;> decide

end BinaryOperator

inductive UnaryOperator where
  | not
  | negate
  deriving DecidableEq, Repr

namespace UnaryOperator

def symbol : UnaryOperator → String
  | .not => "!"
  | .negate => "-"

end UnaryOperator

/-- Operators before an operand hold tighter than all between two. -/
def unaryPrecedence : Nat := 8

theorem BinaryOperator.precedence_lt_unary (operator : BinaryOperator) :
    operator.precedence < unaryPrecedence := by
  cases operator <;> decide

end Hologram.Script
