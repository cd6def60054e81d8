import Hologram.Script.Error

/-! What the parsers share: a parse gives its value together with the lexemes that are left, and a
proof that these are fewer than before. The proof is what makes the parsers total. -/
namespace Hologram.Script
namespace Parser

/-- A value with the lexemes after it, of which there are fewer than `n`. -/
structure Parsed (α : Type) (n : Nat) where
  value : α
  rest : List Lexeme
  shorter : rest.length < n

/-- A value that stands ahead of the lexemes `rest`. -/
def Parsed.ahead {α : Type} (value : α) (rest : List Lexeme) : Parsed α (rest.length + 1) :=
  ⟨value, rest, Nat.lt_succ_self _⟩

theorem length_lt (s : List Lexeme) : s.length < s.length + 1 :=
  Nat.lt_succ_self _

theorem length_le_self (s : List Lexeme) : s.length ≤ s.length :=
  Nat.le_refl _

theorem length_le (s : List Lexeme) : s.length ≤ s.length + 1 :=
  Nat.le_succ _

/-- The offset of the next lexeme, or the end of the text. -/
def position (stop : Nat) : List Lexeme → Nat
  | [] => stop
  | l :: _ => l.offset

def next? (s : List Lexeme) : Option Token :=
  s.head?.map (·.token)

/-- A parse that wanted something else than what stands next. -/
def unexpected (stop : Nat) (what : String) (s : List Lexeme) : CompileError :=
  .malformed (position stop s) (.expected what (next? s))

def expect (stop : Nat) (token : Token) (what : String) :
    (s : List Lexeme) → Except CompileError { r : List Lexeme // r.length < s.length }
  | [] => .error (unexpected stop what [])
  | l :: r =>
    if l.token = token then .ok ⟨r, length_lt r⟩ else .error (unexpected stop what (l :: r))

/-- Whether a block ends here, with its brace or with the text. -/
def endsBlock (s : List Lexeme) : Bool :=
  s.head?.all (·.token == .rightBrace)

/-- The end of a statement: a semicolon, which is taken, or the end of the block. -/
def statementEnd (stop : Nat) (s : List Lexeme) :
    Except CompileError { r : List Lexeme // r.length ≤ s.length } :=
  match s with
  | ⟨.semicolon, _⟩ :: r => .ok ⟨r, length_le r⟩
  | s => if endsBlock s then .ok ⟨s, length_le_self s⟩ else .error (unexpected stop "';'" s)

def endsStatement (s : List Lexeme) : Bool :=
  next? s == some .semicolon || endsBlock s

end Parser
end Hologram.Script
