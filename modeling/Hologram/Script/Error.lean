import Hologram.Script.Token

/-! Why a script is refused. Each failure is a cause of its own, and one function words it. -/
namespace Hologram.Script

inductive SyntaxCause where
  | expected (what : String) (found : Option Token)
  | unexpectedCharacter (c : Char)
  | malformedNumber
  | unterminatedString
  | unterminatedComment
  | invalidTarget
  | placeholderOperator (symbol : String)
  | notOneExpression
  deriving DecidableEq, Repr

namespace SyntaxCause

def message : SyntaxCause → String
  | expected what found => "expected " ++ what ++ ", found " ++ Token.describeNext found
  | unexpectedCharacter c => "unexpected character '" ++ c.toString ++ "'"
  | malformedNumber => "malformed number"
  | unterminatedString => "unterminated string"
  | unterminatedComment => "unterminated comment"
  | invalidTarget => "invalid assignment target"
  | placeholderOperator symbol => "unsupported placeholder operator " ++ symbol
  | notOneExpression => "expected a single expression"

end SyntaxCause

/-- What keeps a loop from being unrolled. -/
inductive LoopFault where
  | comparison (found : Option Token)
  | step (first second : Option Token)
  | variableExpected (found : Option Token)
  | otherVariable (variableName : String)
  | tooLong (variableName : String) (count left : Nat)
  deriving DecidableEq, Repr

namespace LoopFault

def message : LoopFault → String
  | comparison found =>
    "loop condition must be '<' or '<=', found " ++ Token.describeNext found
  | step first second =>
    "loop step must be '++', found " ++ Token.describeNext first ++ " " ++ Token.describeNext second
  | variableExpected found => "expected loop variable, found " ++ Token.describeNext found
  | otherVariable name => "loop header must only use \"" ++ name ++ "\""
  | tooLong name count left =>
    "loop over \"" ++ name ++ "\" unrolls " ++ toString count ++ " iterations, only " ++
      toString left ++ " are left"

end LoopFault

/-- Why a script does not compile. A script that fails gives no code at all. -/
inductive CompileError where
  | malformed (offset : Nat) (cause : SyntaxCause)
  | unresolvedBinding (name : String)
  | indexOutOfRange (name : String) (index : Int) (length : Nat)
  | fieldNotFound (name field : String)
  | notIndexable (name kind : String)
  | notScalar (name : String)
  | nonNumericAdjustment (name : String) (operator : BinaryOperator)
  | nonConstantBound (variableName : String)
  | unsupportedLoop (fault : LoopFault)
  | unsupportedDeclaration
  deriving DecidableEq, Repr

namespace CompileError

def message : CompileError → String
  | malformed offset cause => "syntax error at offset " ++ toString offset ++ ": " ++ cause.message
  | unresolvedBinding name => "variable \"" ++ name ++ "\" was not bound"
  | indexOutOfRange name index length =>
    "index out of bounds: \"" ++ name ++ "\" has " ++ toString length ++ " entries, index " ++
      toString index ++ " does not exist"
  | fieldNotFound name field => "\"" ++ name ++ "\" has no field \"" ++ field ++ "\""
  | notIndexable name kind => "\"" ++ name ++ "\" is a " ++ kind ++ " and cannot be indexed"
  | notScalar name => "\"" ++ name ++ "\" is not a scalar and cannot be substituted directly"
  | nonNumericAdjustment name operator =>
    "cannot apply '" ++ operator.symbol ++ "' to non-numeric binding \"" ++ name ++ "\""
  | nonConstantBound name =>
    "loop over \"" ++ name ++ "\" does not have compile-time constant integer bounds"
  | unsupportedLoop fault => "unsupported loop header: " ++ fault.message
  | unsupportedDeclaration => "variable declarations are not supported outside loop headers"

end CompileError

/-- Why code fails while it runs. -/
inductive EvalError where
  | parse (error : CompileError)
  | unknownFunction (name : String)
  | unresolvedPlaceholder (name : String)
  | indexing
  | unsupported (construct : String)
  | stringOperator (operator : BinaryOperator)
  | numberExpected (found : String)
  | argumentsExpected (function : String) (count : Nat)
  deriving DecidableEq, Repr

namespace EvalError

def message : EvalError → String
  | parse error => error.message
  | unknownFunction name => "unknown function \"" ++ name ++ "\""
  | unresolvedPlaceholder name =>
    "unsupported construct: unresolved placeholder $[" ++ name ++ "]"
  | indexing => "unsupported construct: indexing"
  | unsupported construct => "unsupported construct: " ++ construct
  | stringOperator operator =>
    "type mismatch: '" ++ operator.symbol ++ "' is not defined for strings"
  | numberExpected found => "type mismatch: expected a number, found " ++ found
  | argumentsExpected function count =>
    "type mismatch: " ++ function ++ " expects " ++ toString count ++ " arguments"

end EvalError

end Hologram.Script
