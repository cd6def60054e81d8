import Hologram.Number.Reading
import Hologram.Number.Width
import Hologram.Script.Error
import Hologram.Text.Alphabetic

/-! From text to tokens. One step reads a token, a run of blanks or a comment at the front of the
text; blanks and comments leave no token behind. -/
namespace Hologram.Script
namespace Lexer

/-- The characters that only separate tokens. -/
def isSpace (c : Char) : Bool :=
  c == ' ' || c == '\t' || c == '\n' || c == '\r'

def isNameStart (c : Char) : Bool :=
  Text.isAlphabetic c || c == '_'

/-- The characters that continue a name, so that a dotted name is one token. -/
def isNamePart (c : Char) : Bool :=
  isNameStart c || c.isDigit || c == '.'

/-- What one step reads: a token or nothing, and how many characters follow the first one. -/
abbrev Step := Option Token × Nat

/-- A number that begins with the digit `c`. A point belongs to it when a digit follows; without one
it has to be an integer of 64 bits. -/
def number (c : Char) (cs : List Char) : Except SyntaxCause Step :=
  let whole := cs.takeWhile Char.isDigit
  let fraction := match cs.dropWhile Char.isDigit with
    | '.' :: r => r.takeWhile Char.isDigit
    | _ => []
  if fraction.isEmpty then
    let value := Number.ofDigits (c :: whole)
    if Number.Width.bits64.holds value then .ok (some (.int value), whole.length)
    else .error .malformedNumber
  else
    .ok (some (.float (Number.ofParts (c :: whole) fraction)), whole.length + 1 + fraction.length)

/-- A string runs to the next quote of the kind that began it. -/
def quotation (quote : Char) (cs : List Char) : Except SyntaxCause Step :=
  let text := cs.takeWhile (· != quote)
  if text.length < cs.length then .ok (some (.string (String.ofList text)), text.length + 1)
  else .error .unterminatedString

/-- How many characters there are up to the end of a comment. -/
def commentLength? : List Char → Option Nat
  | '*' :: '/' :: _ => some 2
  | _ :: cs => (commentLength? cs).map (· + 1)
  | [] => none

/-- What begins with an operator sign, by the signs that follow. -/
def sign (c : Char) (cs : List Char) : Except SyntaxCause Step :=
  match c, cs with
  | '/', '/' :: _ => .ok (none, (cs.takeWhile (· != '\n')).length)
  | '/', '*' :: r => match commentLength? r with
    | some length => .ok (none, length + 1)
    | none => .error .unterminatedComment
  | '+', '+' :: _ => .ok (some .increment, 1)
  | '-', '-' :: _ => .ok (some .decrement, 1)
  | '?', '?' :: '=' :: _ => .ok (some (.compoundAssign .coalesce), 2)
  | '?', '?' :: _ => .ok (some (.operator .coalesce), 1)
  | '&', '&' :: _ => .ok (some (.operator .and), 1)
  | '|', '|' :: _ => .ok (some (.operator .or), 1)
  | '=', '=' :: _ => .ok (some (.operator .equal), 1)
  | '!', '=' :: _ => .ok (some (.operator .notEqual), 1)
  | '<', '=' :: _ => .ok (some (.operator .lessEqual), 1)
  | '>', '=' :: _ => .ok (some (.operator .greaterEqual), 1)
  | '+', '=' :: _ => .ok (some (.compoundAssign .add), 1)
  | '-', '=' :: _ => .ok (some (.compoundAssign .subtract), 1)
  | '*', '=' :: _ => .ok (some (.compoundAssign .multiply), 1)
  | '/', '=' :: _ => .ok (some (.compoundAssign .divide), 1)
  | '=', _ => .ok (some .assign, 0)
  | '?', _ => .ok (some .question, 0)
  | '+', _ => .ok (some (.operator .add), 0)
  | '-', _ => .ok (some (.operator .subtract), 0)
  | '*', _ => .ok (some (.operator .multiply), 0)
  | '/', _ => .ok (some (.operator .divide), 0)
  | '%', _ => .ok (some (.operator .modulo), 0)
  | '<', _ => .ok (some (.operator .less), 0)
  | '>', _ => .ok (some (.operator .greater), 0)
  | '!', _ => .ok (some .bang, 0)
  | c, _ => .error (.unexpectedCharacter c)

/-- The token that a bracket or a separator is on its own. -/
def punctuation? : Char → Option Token
  | '(' => some .leftParen
  | ')' => some .rightParen
  | '{' => some .leftBrace
  | '}' => some .rightBrace
  | '[' => some .leftBracket
  | ']' => some .rightBracket
  | ',' => some .comma
  | ';' => some .semicolon
  | ':' => some .colon
  | '$' => some .dollar
  | _ => none

/-- What begins with the character `c` in front of `cs`. -/
def step (c : Char) (cs : List Char) : Except SyntaxCause Step :=
  match punctuation? c with
  | some token => .ok (some token, 0)
  | none =>
    if isSpace c then .ok (none, (cs.takeWhile isSpace).length)
    else if c = '"' ∨ c = '\'' then quotation c cs
    else if c.isDigit then number c cs
    else if c = '.' then
      let digits := cs.takeWhile Char.isDigit
      if digits.isEmpty then .error (.unexpectedCharacter c)
      else .ok (some (.float (Number.ofParts [] digits)), digits.length)
    else if isNameStart c then
      let word := cs.takeWhile isNamePart
      .ok (some (Token.ofWord (c :: word)), word.length)
    else sign c cs

/-- Reads the text that starts at `offset`, after the lexemes `read` in reverse. -/
def scan (offset : Nat) (read : List Lexeme) : List Char → Except CompileError (List Lexeme)
  | [] => .ok read.reverse
  | c :: cs => match step c cs with
    | .error cause => .error (.malformed offset cause)
    | .ok (token?, further) =>
      let read := match token? with
        | some token => ⟨token, offset⟩ :: read
        | none => read
      scan (offset + further + 1) read (cs.drop further)
  termination_by cs => cs.length
  decreasing_by simp only [List.length_drop, List.length_cons]; omega

end Lexer

/-- The tokens of a text, or the first place that is no token. -/
def TokenList.ofText (text : String) : Except CompileError TokenList := do
  let cs := text.toList
  let lexemes ← Lexer.scan 0 [] cs
  return ⟨lexemes, cs.length⟩

end Hologram.Script
