import Hologram.Script.Expression
import Hologram.Script.Lexer
import Hologram.Script.Parser.Basic

/-! Parsing expressions. Operators between operands group by precedence and to the left; a
conditional groups to the right and is looser than all of them. -/
namespace Hologram.Script
namespace Parser

variable (stop : Nat)

/-- The name of a placeholder; what follows its first point is a field. -/
def placeholderName (name : String) : String × Option Accessor :=
  let cs := name.toList
  let base := cs.takeWhile (· != '.')
  match cs.drop base.length with
  | _ :: field => (String.ofList base, some (.field (String.ofList field)))
  | [] => (name, none)

/-- A position in brackets, if one follows and the name has no field. -/
def placeholderAccessor (accessor : Option Accessor) (s : List Lexeme) :
    Except CompileError (Parsed (Option Accessor) (s.length + 1)) :=
  match accessor, s with
  | none, ⟨.leftBracket, _⟩ :: ⟨.int index, _⟩ :: r => do
    let ⟨r, h⟩ ← expect stop .rightBracket "']'" r
    return ⟨some (.index index), r, by simp; omega⟩
  | none, ⟨.leftBracket, _⟩ :: ⟨.identifier name, _⟩ :: r => do
    let ⟨r, h⟩ ← expect stop .rightBracket "']'" r
    return ⟨some (.position name), r, by simp; omega⟩
  | none, ⟨.leftBracket, _⟩ :: r => .error (unexpected stop "index" r)
  | accessor, s => .ok (.ahead accessor s)

/-- The operators that may adjust a placeholder. -/
def adjusts : BinaryOperator → Bool
  | .add | .subtract | .multiply | .divide => true
  | _ => false

/-- An operator with a number, if an operator follows. -/
def placeholderAdjustment (s : List Lexeme) :
    Except CompileError (Parsed (Option (BinaryOperator × Constant)) (s.length + 1)) :=
  match s with
  | ⟨.operator op, offset⟩ :: r =>
    if adjusts op then
      match r with
      | ⟨.int value, _⟩ :: r => .ok ⟨some (op, .int value), r, by simp; omega⟩
      | ⟨.float value, _⟩ :: r => .ok ⟨some (op, .float value), r, by simp; omega⟩
      | r => .error (.malformed offset (.expected "numeric operand" (next? r)))
    else .error (.malformed offset (.placeholderOperator op.symbol))
  | ⟨.bang, offset⟩ :: _ => .error (.malformed offset (.placeholderOperator "!"))
  | s => .ok (.ahead none s)

/-- A placeholder after its dollar sign. -/
def placeholder (s : List Lexeme) : Except CompileError (Parsed Placeholder s.length) := do
  let ⟨r, h⟩ ← expect stop .leftBracket "'[' after '$'" s
  match r, h with
  | ⟨.identifier text, _⟩ :: r, h =>
    let (name, accessor) := placeholderName text
    let ⟨accessor, r, h₁⟩ ← placeholderAccessor stop accessor r
    let ⟨adjustment, r, h₂⟩ ← placeholderAdjustment r
    let ⟨r, h₃⟩ ← expect stop .rightBracket "']'" r
    return ⟨⟨name, accessor, adjustment⟩, r, by simp at h; omega⟩
  | r, _ => .error (unexpected stop "variable name" r)

mutual

def expression (s : List Lexeme) : Except CompileError (Parsed Expression s.length) := do
  let ⟨condition, r, h⟩ ← binary 1 s
  conditionalTail s.length condition r h
  termination_by s.length * 8 + 5
  decreasing_by all_goals omega

/-- What follows a condition: the branches, or nothing. -/
def conditionalTail (n : Nat) (condition : Expression) (s : List Lexeme) (h : s.length < n) :
    Except CompileError (Parsed Expression n) :=
  match s, h with
  | ⟨.question, _⟩ :: s, h => do
    let ⟨satisfied, r, h₁⟩ ← expression s
    match r, h₁ with
    | ⟨.colon, _⟩ :: r, h₁ =>
      let ⟨unsatisfied, r, h₂⟩ ← expression r
      return ⟨.conditional condition satisfied unsatisfied, r, by simp at h h₁; omega⟩
    | r, h₁ => return ⟨.guarded condition satisfied, r, by simp at h; omega⟩
  | s, h => .ok ⟨condition, s, h⟩
  termination_by s.length * 8
  decreasing_by all_goals (simp at *; omega)

/-- Operands joined by operators of at least the given precedence. -/
def binary (minimum : Nat) (s : List Lexeme) :
    Except CompileError (Parsed Expression s.length) := do
  let ⟨first, r, h⟩ ← unary s
  binaryTail s.length minimum first r h
  termination_by s.length * 8 + 4
  decreasing_by all_goals omega

def binaryTail (n minimum : Nat) (first : Expression) (s : List Lexeme) (h : s.length < n) :
    Except CompileError (Parsed Expression n) :=
  match s, h with
  | ⟨.operator op, offset⟩ :: s, h =>
    if minimum ≤ op.precedence then do
      let ⟨second, r, h₁⟩ ← binary (op.precedence + 1) s
      binaryTail n minimum (.binary op first second) r (by simp at h; omega)
    else .ok ⟨first, ⟨.operator op, offset⟩ :: s, h⟩
  | s, h => .ok ⟨first, s, h⟩
  termination_by s.length * 8
  decreasing_by all_goals (simp at *; omega)

def unary (s : List Lexeme) : Except CompileError (Parsed Expression s.length) :=
  match s with
  | ⟨.bang, _⟩ :: s => do
    let ⟨operand, r, h⟩ ← unary s
    return ⟨.unary .not operand, r, by simp; omega⟩
  | ⟨.operator .subtract, _⟩ :: s => do
    let ⟨operand, r, h⟩ ← unary s
    return ⟨operand.negate, r, by simp; omega⟩
  | s => postfixed s
  termination_by s.length * 8 + 3
  decreasing_by all_goals simp_wf

def postfixed (s : List Lexeme) : Except CompileError (Parsed Expression s.length) := do
  let ⟨target, r, h⟩ ← primary s
  indexTail s.length target r h
  termination_by s.length * 8 + 2
  decreasing_by all_goals omega

def indexTail (n : Nat) (target : Expression) (s : List Lexeme) (h : s.length < n) :
    Except CompileError (Parsed Expression n) :=
  match s, h with
  | ⟨.leftBracket, _⟩ :: s, h => do
    let ⟨position, r, h₁⟩ ← expression s
    let ⟨r, h₂⟩ ← expect stop .rightBracket "']'" r
    indexTail n (.index target position) r (by simp at h; omega)
  | s, h => .ok ⟨target, s, h⟩
  termination_by s.length * 8
  decreasing_by all_goals (simp at *; omega)

/-- A literal, a name, a call, a placeholder or an expression in parentheses. -/
def primary (s : List Lexeme) : Except CompileError (Parsed Expression s.length) :=
  match s with
  | ⟨.int value, _⟩ :: r => .ok (.ahead (.int value) r)
  | ⟨.float value, _⟩ :: r => .ok (.ahead (.float value) r)
  | ⟨.bool value, _⟩ :: r => .ok (.ahead (.bool value) r)
  | ⟨.string text, _⟩ :: r => .ok (.ahead (.string text) r)
  | ⟨.identifier function, _⟩ :: ⟨.leftParen, _⟩ :: r => do
    let ⟨arguments, r, h⟩ ← arguments (r.length + 1) [] r (length_lt r)
    return ⟨.call function arguments, r, by simp; omega⟩
  | ⟨.identifier name, _⟩ :: r => .ok (.ahead (.name name) r)
  | ⟨.leftParen, _⟩ :: s => do
    let ⟨inner, r, h₁⟩ ← expression s
    let ⟨r, h₂⟩ ← expect stop .rightParen "')'" r
    return ⟨inner, r, by simp; omega⟩
  | ⟨.dollar, _⟩ :: s => do
    let ⟨inner, r, h⟩ ← placeholder stop s
    return ⟨.placeholder inner, r, by simp; omega⟩
  | s => .error (unexpected stop "expression" s)
  termination_by s.length * 8 + 1
  decreasing_by all_goals (simp_wf; omega)

/-- Arguments up to the closing parenthesis, after those that are read already, in reverse. -/
def arguments (n : Nat) (read : List Expression) (s : List Lexeme) (h : s.length < n) :
    Except CompileError (Parsed (List Expression) n) :=
  match s, h with
  | ⟨.rightParen, _⟩ :: r, h => .ok ⟨read.reverse, r, by simp at h; omega⟩
  | s, h => do
    let ⟨argument, r, h₁⟩ ← expression s
    match r, h₁ with
    | ⟨.comma, _⟩ :: r, h₁ => arguments n (argument :: read) r (by simp at h₁; omega)
    | r, h₁ =>
      let ⟨r, h₂⟩ ← expect stop .rightParen "')'" r
      return ⟨(argument :: read).reverse, r, by omega⟩
  termination_by s.length * 8 + 6
  decreasing_by all_goals (simp at * <;> omega)

end

def returnValue (s : List Lexeme) :
    Except CompileError (Parsed (Option Expression) (s.length + 1)) :=
  if endsStatement s then .ok (.ahead none s)
  else do
    let ⟨value, r, h⟩ ← expression stop s
    return ⟨some value, r, Nat.lt_succ_of_lt h⟩

end Parser

def Expression.ofTokens (tokens : TokenList) : Except CompileError Expression := do
  let ⟨value, rest, _⟩ ← Parser.expression tokens.stop tokens.lexemes
  match rest with
  | [] => return value
  | rest => .error (Parser.unexpected tokens.stop "end of expression" rest)

def Expression.ofText (text : String) : Except CompileError Expression := do
  Expression.ofTokens (← TokenList.ofText text)

end Hologram.Script
