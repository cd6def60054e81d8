import Hologram.Dictionary
import Hologram.Number.Layout

/-! JSON values and their text. Whole numbers and numbers with a point are different values, and an
object keeps its members in their order. -/
namespace Hologram

inductive Json where
  | null
  | bool (value : Bool)
  | int (value : Int)
  | float (value : Float)
  | string (text : String)
  | array (items : List Json)
  | object (members : List (String × Json))
  deriving BEq, Repr

namespace Json

def hexDigit (n : Nat) : Char :=
  Nat.digitChar (n % 16)

def escapedChar (c : Char) : List Char :=
  match c with
  | '"' => ['\\', '"']
  | '\\' => ['\\', '\\']
  | '\x08' => ['\\', 'b']
  | '\x0c' => ['\\', 'f']
  | '\n' => ['\\', 'n']
  | '\r' => ['\\', 'r']
  | '\t' => ['\\', 't']
  | c =>
    if c.toNat < 0x20 then ['\\', 'u', '0', '0', hexDigit (c.toNat / 16), hexDigit c.toNat]
    else [c]

def stringText (s : String) : String :=
  "\"" ++ String.ofList (s.toList.flatMap escapedChar) ++ "\""

/-- The text of a number with a point; what is no number has none. -/
def floatText (x : Float) : String :=
  if x.isFinite then Number.Layout.document.write x else "null"

def memberTexts (members : List (String × String)) : List String :=
  members.map fun (key, value) => stringText key ++ ":" ++ value

def arrayText (items : List String) : String :=
  "[" ++ ",".intercalate items ++ "]"

def objectText (members : List (String × String)) : String :=
  "\x7b" ++ ",".intercalate (memberTexts members) ++ "\x7d"

mutual

/-- The text of a value, in which objects show their members in the order that `arrange` gives. -/
def textWith (arrange : Dictionary String → Dictionary String) : Json → String
  | null => "null"
  | bool value => if value then "true" else "false"
  | int value => toString value
  | float value => floatText value
  | string text => stringText text
  | array items => arrayText (textsWith arrange items)
  | object members => objectText (arrange (memberTextsWith arrange members))

def textsWith (arrange : Dictionary String → Dictionary String) : List Json → List String
  | [] => []
  | item :: items => textWith arrange item :: textsWith arrange items

def memberTextsWith (arrange : Dictionary String → Dictionary String) :
    List (String × Json) → List (String × String)
  | [] => []
  | (key, value) :: members => (key, textWith arrange value) :: memberTextsWith arrange members

end

/-- The text of a value without blanks, members in their order. -/
def text (j : Json) : String :=
  j.textWith id

/-- The text of a value in which the members of every object are sorted. -/
def canonicalText (j : Json) : String :=
  j.textWith Dictionary.sorted

/-- The blanks at the start of a line. -/
def indentation (depth : Nat) : String :=
  String.ofList (List.replicate (2 * depth) ' ')

/-- Parts on lines of their own between two brackets. -/
def spread (opening closing : String) (depth : Nat) (parts : List String) : String :=
  if parts.isEmpty then opening ++ closing
  else
    opening ++ "\n" ++ ",\n".intercalate (parts.map (indentation (depth + 1) ++ ·)) ++ "\n" ++
      indentation depth ++ closing

mutual

def prettyAt (depth : Nat) : Json → String
  | array items => spread "[" "]" depth (prettyItems (depth + 1) items)
  | object members => spread "\x7b" "\x7d" depth (prettyMembers (depth + 1) members)
  | scalar => scalar.text

def prettyItems (depth : Nat) : List Json → List String
  | [] => []
  | item :: items => prettyAt depth item :: prettyItems depth items

def prettyMembers (depth : Nat) : List (String × Json) → List String
  | [] => []
  | (key, value) :: members =>
    (stringText key ++ ": " ++ prettyAt depth value) :: prettyMembers depth members

end

/-- The text of a value over several lines, two blanks to a level. -/
def pretty (j : Json) : String :=
  j.prettyAt 0

def ofStrings (texts : List String) : Json :=
  array (texts.map string)

def ofNat (n : Nat) : Json :=
  int n

def ofOption {α : Type} (toJson : α → Json) : Option α → Json
  | some value => toJson value
  | none => null

example : (object [("b", int 1), ("a", array [null, float 1.0])]).text =
    "\x7b\"b\":1,\"a\":[null,1.0]\x7d" := by decide +kernel

example : stringText "a\"\x01" = "\"a\\\"\\u0001\"" := by decide +kernel

end Json
end Hologram
