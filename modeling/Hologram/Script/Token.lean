import Hologram.Number.Layout
import Hologram.Script.Operator
import Hologram.Text.Quoted

/-! Tokens of the script language, and how messages show them. -/
namespace Hologram.Script

inductive Token where
  | int (value : Int)
  | float (value : Float)
  | bool (value : Bool)
  | identifier (name : String)
  | string (text : String)
  | leftParen
  | rightParen
  | leftBrace
  | rightBrace
  | leftBracket
  | rightBracket
  | comma
  | semicolon
  | colon
  | question
  | dollar
  | operator (operator : BinaryOperator)
  | bang
  | compoundAssign (operator : BinaryOperator)
  | increment
  | decrement
  | assign
  | ifWord
  | elseWord
  | forWord
  | letWord
  | returnWord
  deriving DecidableEq, Repr

/-- A token with the number of characters before it. -/
structure Lexeme where
  token : Token
  offset : Nat
  deriving DecidableEq, Repr

/-- The tokens of a text and the length of the text. -/
structure TokenList where
  lexemes : List Lexeme
  stop : Nat
  deriving DecidableEq, Repr

namespace Token

/-- A word that is not reserved is a name. -/
def ofWord : List Char → Token
  | ['i', 'f'] => ifWord
  | ['e', 'l', 's', 'e'] => elseWord
  | ['f', 'o', 'r'] => forWord
  | ['l', 'e', 't'] => letWord
  | ['v', 'a', 'r'] => letWord
  | ['r', 'e', 't', 'u', 'r', 'n'] => returnWord
  | ['t', 'r', 'u', 'e'] => bool true
  | ['f', 'a', 'l', 's', 'e'] => bool false
  | word => identifier (String.ofList word)

def labelled (kind content : String) : String :=
  kind ++ "(" ++ content ++ ")"

def describe : Token → String
  | int value => labelled "Int" (toString value)
  | float value => labelled "Float" (Number.Layout.message.write value)
  | bool value => labelled "Bool" (if value then "true" else "false")
  | identifier name => labelled "Identifier" (Text.quoted name)
  | string text => labelled "String" (Text.quoted text)
  | leftParen => "LParan"
  | rightParen => "RParan"
  | leftBrace => "LBrace"
  | rightBrace => "RBrace"
  | leftBracket => "LBracket"
  | rightBracket => "RBracket"
  | comma => "Comma"
  | semicolon => "SemiColon"
  | colon => "Colon"
  | question => "Question"
  | dollar => "Dollar"
  | operator op => labelled "Operator" (Text.quoted op.symbol)
  | bang => labelled "Operator" (Text.quoted UnaryOperator.not.symbol)
  | compoundAssign op => labelled "CompoundAssign" (Text.quoted op.symbol)
  | increment => "Increment"
  | decrement => "Decrement"
  | assign => "Assign"
  | ifWord => "If"
  | elseWord => "Else"
  | forWord => "For"
  | letWord => "Let"
  | returnWord => "Return"

def describeNext : Option Token → String
  | some token => token.describe
  | none => "EOF"

end Token

namespace TokenList

def describe (tokens : TokenList) : String :=
  "TokenReader[" ++ ",".intercalate (tokens.lexemes.map fun l => l.token.describe) ++ "]"

end TokenList

end Hologram.Script
