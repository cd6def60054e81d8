import Hologram.Script.Expression
import Hologram.Script.Procedure
import Hologram.Text.Blank

/-! The text of code. Parentheses stand where the reader of the code would otherwise group
differently: around looser operands, around signs after signs, and around fallbacks and conditionals
beside a conditional. -/
namespace Hologram.Script

def parenthesized (text : String) : String :=
  "(" ++ text ++ ")"

namespace Atomic

def isWordChar (c : Char) : Bool :=
  c.isAlphanum || c == '_' || c == '.'

/-- Whether the parenthesis that brings the depth back to zero is the last character. Parentheses
in single quotes do not count. -/
def closesAtEnd (depth : Nat) (quoted : Bool) : List Char → Bool
  | [] => false
  | '\'' :: cs => closesAtEnd depth (!quoted) cs
  | '(' :: cs => closesAtEnd (if quoted then depth else depth + 1) quoted cs
  | ')' :: cs =>
    if quoted then closesAtEnd depth quoted cs
    else if depth ≤ 1 then cs.isEmpty
    else closesAtEnd (depth - 1) quoted cs
  | _ :: cs => closesAtEnd depth quoted cs

/-- Whether a text is a name, a number, a call or a group in parentheses, and so needs no
parentheses beside an operator. -/
def holds (text : String) : Bool :=
  let cs := Text.trim text.toList
  match cs.dropWhile isWordChar with
  | [] => !cs.isEmpty
  | '(' :: rest => closesAtEnd 0 false ('(' :: rest)
  | _ => false

end Atomic

namespace Expression

/-- The precedence of a conditional, which is looser than every operator. -/
def conditionalPrecedence : Nat := 0

/-- The precedence of what needs no parentheses at all. -/
def atomPrecedence : Nat := unaryPrecedence + 1

/-- How tightly the text of an expression holds together. -/
def precedence : Expression → Nat
  | binary operator _ _ => operator.precedence
  | unary _ _ => unaryPrecedence
  | conditional _ _ _ | guarded _ _ => conditionalPrecedence
  | raw text => if Atomic.holds text then atomPrecedence else conditionalPrecedence
  | _ => atomPrecedence

def isNegativeLiteral : Expression → Bool
  | int value => value < 0
  | float value => Number.isNegative value
  | indefinite => true
  | _ => false

def asOperand (e : Expression) (text : String) (minimum : Nat) (wrapNegative : Bool) : String :=
  if e.precedence < minimum || (wrapNegative && e.isNegativeLiteral) then parenthesized text
  else text

/-- The text of an expression as a condition. A fallback is looser than the conditional in the
target language, so a condition that uses one is in parentheses as a whole. -/
def asCondition (e : Expression) (text : String) : String :=
  let nested := match e with
    | conditional _ _ _ | guarded _ _ => true
    | raw code => holdsText code "?" && !Atomic.holds code
    | _ => false
  if nested || e.containsOperator .coalesce then parenthesized text else text

/-- The text of an expression as a branch. A fallback would draw the conditional around it in. -/
def asBranch (e : Expression) (text : String) (minimum : Nat) : String :=
  let coalesces := match e with
    | binary operator _ _ => operator == .coalesce
    | raw code => holdsText code "??" && !Atomic.holds code
    | _ => false
  let operand := e.asOperand text minimum false
  if coalesces && minimum ≤ e.precedence then parenthesized operand else operand

mutual

def text : Expression → String
  | int value => toString value
  | float value => Number.literalText value
  | indefinite => Number.literalText Number.missing
  | bool value => Constant.boolText value
  | string value => "'" ++ value ++ "'"
  | name variableName => variableName
  | placeholder p => "$[" ++ p.name ++ "]"
  | raw code => code
  | call function arguments => function ++ parenthesized (",".intercalate (texts arguments))
  | index target position =>
    target.asOperand (text target) atomPrecedence false ++ "[" ++ text position ++ "]"
  | binary operator first second =>
    first.asOperand (text first) operator.precedence false ++ operator.symbol ++
      second.asOperand (text second) (operator.precedence + 1) operator.isAdditive
  | unary operator operand =>
    operator.symbol ++ operand.asOperand (text operand) unaryPrecedence true
  | conditional condition satisfied unsatisfied =>
    condition.asCondition (text condition) ++ "?" ++
      satisfied.asBranch (text satisfied) (conditionalPrecedence + 1) ++ ":" ++
      unsatisfied.asBranch (text unsatisfied) conditionalPrecedence
  | guarded condition satisfied =>
    condition.asCondition (text condition) ++ "?" ++
      satisfied.asBranch (text satisfied) (conditionalPrecedence + 1)

def texts : List Expression → List String
  | [] => []
  | e :: es => text e :: texts es

end

theorem text_binary (operator : BinaryOperator) (first second : Expression) :
    (binary operator first second).text =
      first.asOperand first.text operator.precedence false ++ operator.symbol ++
        second.asOperand second.text (operator.precedence + 1) operator.isAdditive := by
  rw [text]

end Expression

namespace Code

mutual

/-- The text of an instruction. A branch with nothing in it leaves no text. -/
def instructionText : Instruction Expression → String
  | .assign target value => target.text ++ "=" ++ value.text ++ ";"
  | .eval expression => expression.text ++ ";"
  | .returns (some value) => "return " ++ value.text ++ ";"
  | .returns none => "return;"
  | .branch condition satisfied unsatisfied =>
    if satisfied.isEmpty && unsatisfied.isEmpty then ""
    else
      condition.asCondition condition.text ++ "?\x7b" ++ String.join (texts satisfied) ++ "\x7d" ++
        (if unsatisfied.isEmpty then ""
          else ":\x7b" ++ String.join (texts unsatisfied) ++ "\x7d") ++ ";"

def texts : List (Instruction Expression) → List String
  | [] => []
  | i :: rest => instructionText i :: texts rest

end

def text (code : Code) : String :=
  String.join (texts code)

end Code
end Hologram.Script
