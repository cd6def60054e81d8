import Hologram.Document.Basic
import Hologram.Number.Reading
import Hologram.Number.Width

/-! Reading documents. The only failures here are texts that are no JSON at all. -/
namespace Hologram.Document
namespace Reader

/-- The characters that may stand between the parts of a document. -/
def isSpace (c : Char) : Bool :=
  c == ' ' || c == '\n' || c == '\t' || c == '\r'

/-- The text behind leading blanks. -/
def skip (cs : List Char) : List Char :=
  cs.dropWhile isSpace

def hexValue? (c : Char) : Option Nat :=
  if c.isDigit then some (c.toNat - '0'.toNat)
  else if 'a' ≤ c ∧ c ≤ 'f' then some (c.toNat - 'a'.toNat + 10)
  else if 'A' ≤ c ∧ c ≤ 'F' then some (c.toNat - 'A'.toNat + 10)
  else none

def hexUnit? (a b c d : Char) : Option Nat := do
  let a ← hexValue? a
  let b ← hexValue? b
  let c ← hexValue? c
  let d ← hexValue? d
  return ((a * 16 + b) * 16 + c) * 16 + d

def escape? : Char → Option Char
  | '"' => some '"'
  | '\\' => some '\\'
  | '/' => some '/'
  | 'b' => some '\x08'
  | 'f' => some '\x0c'
  | 'n' => some '\n'
  | 'r' => some '\r'
  | 't' => some '\t'
  | _ => none

/-- The rest of a string after its opening quote, behind the characters `read` in reverse. An escape
by number denotes a UTF-16 unit. Where one unit of a pair stands without the other, the string
denotes nothing. -/
def stringBody (read : Option (List Char)) : List Char → Option (Option String × List Char)
  | '"' :: cs => some (read.map fun cs => String.ofList cs.reverse, cs)
  | '\\' :: 'u' :: a :: b :: c :: d :: cs =>
    match hexUnit? a b c d with
    | none => none
    | some unit =>
      if 0xD800 ≤ unit ∧ unit < 0xDC00 then
        match cs with
        | '\\' :: 'u' :: a :: b :: c :: d :: rest =>
          match hexUnit? a b c d with
          | none => none
          | some low =>
            if 0xDC00 ≤ low ∧ low < 0xE000 then
              let point := 0x10000 + (unit - 0xD800) * 0x400 + (low - 0xDC00)
              stringBody (read.map (Char.ofNat point :: ·)) rest
            else stringBody none rest
        | cs => stringBody none cs
      else if 0xDC00 ≤ unit ∧ unit < 0xE000 then stringBody none cs
      else stringBody (read.map (Char.ofNat unit :: ·)) cs
  | '\\' :: c :: cs => match escape? c with
    | some c => stringBody (read.map (c :: ·)) cs
    | none => none
  | c :: cs =>
    if c.toNat < 0x20 || c == '\\' then none else stringBody (read.map (c :: ·)) cs
  | [] => none
  termination_by cs => cs.length

/-- The name of a member behind its opening quote. A name with an escape has a backslash before the
first quote that follows. -/
def memberName? (cs : List Char) : Option (Option MemberName × List Char) :=
  let isPlain := !(cs.takeWhile (· != '"')).contains '\\'
  (stringBody (some []) cs).map fun (text, rest) => (text.map fun text => { text, isPlain }, rest)

/-- A member behind the members `read` in reverse, which are missing once a name denotes nothing. -/
def withMember (read : Option (List (MemberName × Document))) (name : Option MemberName)
    (item : Document) : Option (List (MemberName × Document)) :=
  match read, name with
  | some read, some name => some ((name, item) :: read)
  | _, _ => none

/-- The significand of a literal: a digit that would not fit 64 bits any more ends it. -/
structure Significand where
  value : Nat
  exponent : Int
  full : Bool

def greatestSignificand : Nat := Number.Width.bits64.count - 1

namespace Significand

/-- A digit before the point. Once the significand is full a digit only scales it. -/
def whole (s : Significand) (digit : Nat) : Significand :=
  if !s.full && 10 * s.value + digit ≤ greatestSignificand then
    { s with value := 10 * s.value + digit }
  else { s with exponent := s.exponent + 1, full := true }

/-- A digit after the point. Once the significand is full a digit is dropped. -/
def fraction (s : Significand) (digit : Nat) : Significand :=
  if !s.full && 10 * s.value + digit ≤ greatestSignificand then
    { s with value := 10 * s.value + digit, exponent := s.exponent - 1 }
  else { s with full := true }

def digits (s : Significand) (next : Significand → Nat → Significand) (ds : List Char) :
    Significand :=
  ds.foldl (fun s d => next s (d.toNat - '0'.toNat)) s

end Significand

/-- A significand scaled by a power of ten. Each of the few operations is rounded on its own. -/
def scaled (value : Nat) (exponent : Int) : Float :=
  let x := Float.ofNat value
  if value = 0 then 0.0
  else if exponent > 308 then Number.infinity
  else if 0 ≤ exponent then x * Float.ofScientific 1 false exponent.toNat
  else if -308 ≤ exponent then x / Float.ofScientific 1 false (-exponent).toNat
  else if -616 ≤ exponent then
    x / Float.ofScientific 1 false 308 / Float.ofScientific 1 false (-exponent - 308).toNat
  else 0.0

/-- The greatest exponent that is told apart from all greater ones. -/
def greatestExponent : Nat := Number.Width.bits32.half - 1

/-- The literal with a point or an exponent. -/
def decimal (negative : Bool) (s : Significand) (exponent : Int) : Document :=
  let x := scaled s.value (s.exponent + exponent)
  if x.isFinite then float (if negative then -x else x) else nothing

/-- The literal without point and exponent: an integer when 64 bits hold it. -/
def integral (negative : Bool) (s : Significand) : Document :=
  if s.full then decimal negative s 0
  else if !negative then int s.value
  else if s.value = 0 ∨ Number.Width.bits64.half < s.value then float (-Float.ofNat s.value)
  else int (-s.value)

/-- The exponent of a literal after its letter, with the text behind it. -/
def exponentPart? (cs : List Char) : Option (Int × List Char) :=
  let (negative, cs) := match cs with
    | '-' :: r => (true, r)
    | '+' :: r => (false, r)
    | r => (false, r)
  let ds := cs.takeWhile Char.isDigit
  if ds.isEmpty then none
  else
    let size := min (Number.ofDigits ds) greatestExponent
    some (if negative then -size else size, cs.dropWhile Char.isDigit)

def number? (negative : Bool) (cs : List Char) : Option (Document × List Char) :=
  let ds := cs.takeWhile Char.isDigit
  let rest := cs.dropWhile Char.isDigit
  if ds.isEmpty || (ds.head? == some '0' && 1 < ds.length) then none
  else
    let s := Significand.digits ⟨0, 0, false⟩ Significand.whole ds
    match rest with
    | '.' :: r =>
      let fs := r.takeWhile Char.isDigit
      let s := Significand.digits { s with full := false } Significand.fraction fs
      if fs.isEmpty then none
      else match r.dropWhile Char.isDigit with
        | [] => some (decimal negative s 0, [])
        | c :: r =>
          if c = 'e' ∨ c = 'E' then
            (exponentPart? r).map fun (exponent, r) => (decimal negative s exponent, r)
          else some (decimal negative s 0, c :: r)
    | c :: r =>
      if c = 'e' ∨ c = 'E' then
        (exponentPart? r).map fun (exponent, r) => (decimal negative s exponent, r)
      else some (integral negative s, c :: r)
    | [] => some (integral negative s, [])

mutual

/-- A document; blanks may stand before it. Every call and every step of a loop takes one unit of
the fuel. -/
def value : Nat → List Char → Option (Document × List Char)
  | 0, _ => none
  | fuel + 1, cs => match skip cs with
    | '"' :: r => (stringBody (some []) r).map fun (text, r) => ((text.map string).getD nothing, r)
    | '[' :: r => match skip r with
      | ']' :: r => some (array [], r)
      | r => items fuel [] r
    | '{' :: r => match skip r with
      | '}' :: r => some (object [], r)
      | r => members fuel (some []) r
    | 't' :: 'r' :: 'u' :: 'e' :: r => some (bool true, r)
    | 'f' :: 'a' :: 'l' :: 's' :: 'e' :: r => some (bool false, r)
    | 'n' :: 'u' :: 'l' :: 'l' :: r => some (null, r)
    | '-' :: r => number? true r
    | r => number? false r

/-- The items of an array up to its end, behind those that are read already, in reverse. -/
def items : Nat → List Document → List Char → Option (Document × List Char)
  | 0, _, _ => none
  | fuel + 1, read, cs => match value fuel cs with
    | none => none
    | some (item, r) => match skip r with
      | ',' :: r => items fuel (item :: read) r
      | ']' :: r => some (array (item :: read).reverse, r)
      | _ => none

/-- The members of an object up to its end, behind those that are read already, in reverse. -/
def members : Nat → Option (List (MemberName × Document)) → List Char →
    Option (Document × List Char)
  | 0, _, _ => none
  | fuel + 1, read, cs => match skip cs with
    | '"' :: r => match memberName? r with
      | none => none
      | some (name, r) => match skip r with
        | ':' :: r => match value fuel r with
          | none => none
          | some (item, r) => match skip r with
            | ',' :: r => members fuel (withMember read name item) r
            | '}' :: r =>
              let all := withMember read name item
              some ((all.map fun ms => object ms.reverse).getD nothing, r)
            | _ => none
        | _ => none
    | _ => none

end

end Reader

/-- The document that a text is, if all of it is one. Two units of fuel for
each character are enough, since each call is followed by one that takes a character. -/
def read? (text : String) : Option Document :=
  let cs := text.toList
  match Reader.value (2 * cs.length + 2) cs with
  | some (value, rest) => if (Reader.skip rest).isEmpty then some value else none
  | none => none

end Hologram.Document
