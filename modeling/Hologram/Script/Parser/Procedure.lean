import Hologram.Script.Parser.Expression
import Hologram.Script.Procedure

/-! Parsing statements as they are written. Only names and indexed places can be assigned, and the
header of a loop has one form: count one variable up to a bound. -/
namespace Hologram.Script
namespace Parser

variable (stop : Nat)

/-- Refuses targets that are neither a name nor an indexed place. -/
def assignable (offset : Nat) : Expression → Except CompileError Expression
  | .name name => .ok (.name name)
  | .index target position => .ok (.index target position)
  | _ => .error (.malformed offset .invalidTarget)

def stepBefore (operator : BinaryOperator) (s : List Lexeme) :
    Except CompileError (Parsed Statement s.length) := do
  let ⟨target, r, h⟩ ← postfixed stop s
  let target ← assignable (position stop s) target
  return ⟨.assign target (some operator) (.int 1), r, h⟩

/-- An assignment, a count by one or an expression that stands alone. -/
def simpleStatement (s : List Lexeme) : Except CompileError (Parsed Statement s.length) :=
  match s with
  | ⟨.increment, _⟩ :: s => do
    let ⟨statement, r, h⟩ ← stepBefore stop .add s
    return ⟨statement, r, by simp; omega⟩
  | ⟨.decrement, _⟩ :: s => do
    let ⟨statement, r, h⟩ ← stepBefore stop .subtract s
    return ⟨statement, r, by simp; omega⟩
  | s => do
    let ⟨first, r, h⟩ ← expression stop s
    match r, h with
    | ⟨.assign, _⟩ :: r, h =>
      let target ← assignable (position stop r) first
      let ⟨value, r, h₁⟩ ← expression stop r
      return ⟨.assign target none value, r, by simp at h; omega⟩
    | ⟨.compoundAssign op, offset⟩ :: r, h =>
      let target ← assignable offset first
      let ⟨value, r, h₁⟩ ← expression stop r
      return ⟨.assign target (some op) value, r, by simp at h; omega⟩
    | ⟨.increment, offset⟩ :: r, h =>
      let target ← assignable offset first
      return ⟨.assign target (some .add) (.int 1), r, by simp at h; omega⟩
    | ⟨.decrement, offset⟩ :: r, h =>
      let target ← assignable offset first
      return ⟨.assign target (some .subtract) (.int 1), r, by simp at h; omega⟩
    | r, h => return ⟨.eval first, r, h⟩

def loopVariable (s : List Lexeme) : Except CompileError (Parsed String s.length) :=
  match s with
  | ⟨.identifier name, _⟩ :: r => .ok (.ahead name r)
  | s => .error (.unsupportedLoop (.variableExpected (next? s)))

/-- The comparison in the header of a loop: whether the bound itself is included. -/
def loopComparison (s : List Lexeme) : Except CompileError (Parsed Bool s.length) :=
  match s with
  | ⟨.operator .less, _⟩ :: r => .ok (.ahead false r)
  | ⟨.operator .lessEqual, _⟩ :: r => .ok (.ahead true r)
  | s => .error (.unsupportedLoop (.comparison (next? s)))

/-- The step in the header of a loop: the variable that is counted up. -/
def loopStep (s : List Lexeme) : Except CompileError (Parsed String s.length) :=
  match s with
  | ⟨.identifier name, _⟩ :: ⟨.increment, _⟩ :: r =>
    .ok ⟨name, r, by simp only [List.length_cons]; omega⟩
  | ⟨.increment, _⟩ :: ⟨.identifier name, _⟩ :: r =>
    .ok ⟨name, r, by simp only [List.length_cons]; omega⟩
  | s => .error (.unsupportedLoop (.step (next? s) (next? s.tail)))

structure LoopHeader where
  variableName : String
  first : Expression
  last : Expression
  inclusive : Bool

/-- The header of a loop after its first word. -/
def loopHeader (s : List Lexeme) : Except CompileError (Parsed LoopHeader s.length) := do
  let ⟨r, h₀⟩ ← expect stop .leftParen "'('" s
  let r₁ : { r₁ : List Lexeme // r₁.length ≤ r.length } := match r with
    | ⟨.letWord, _⟩ :: r => ⟨r, length_le r⟩
    | r => ⟨r, length_le_self r⟩
  let ⟨name, r, h₁⟩ ← loopVariable r₁.val
  let ⟨r, h₂⟩ ← expect stop .assign "'='" r
  let ⟨first, r, h₃⟩ ← expression stop r
  let ⟨r, h₄⟩ ← expect stop .semicolon "';'" r
  let ⟨compared, r, h₅⟩ ← loopVariable r
  let ⟨inclusive, r, h₆⟩ ← loopComparison r
  let ⟨last, r, h₇⟩ ← binary stop 1 r
  let ⟨r, h₈⟩ ← expect stop .semicolon "';'" r
  let ⟨stepped, r, h₉⟩ ← loopStep r
  let ⟨r, h₁₀⟩ ← expect stop .rightParen "')'" r
  if compared = name ∧ stepped = name then
    return ⟨⟨name, first, last, inclusive⟩, r, by have := r₁.property; omega⟩
  else .error (.unsupportedLoop (.otherVariable name))

mutual

/-- Statements up to the end of their block, after those that are read already, in reverse. -/
def statements (n : Nat) (read : List Statement) (s : List Lexeme) (h : s.length < n) :
    Except CompileError (Parsed (List Statement) n) :=
  match s, h with
  | [], h => .ok ⟨read.reverse, [], h⟩
  | ⟨.rightBrace, offset⟩ :: r, h => .ok ⟨read.reverse, ⟨.rightBrace, offset⟩ :: r, h⟩
  | s, h => do
    let ⟨statement?, r, h₁⟩ ← statement s
    statements n (statement?.toList ++ read) r (by omega)
  termination_by s.length * 4 + 2
  decreasing_by all_goals (simp at * <;> omega)

/-- A block in braces, or one statement in its place. -/
def block (s : List Lexeme) : Except CompileError (Parsed (List Statement) s.length) :=
  match s with
  | ⟨.leftBrace, _⟩ :: s => do
    let ⟨body, r, h₁⟩ ← statements (s.length + 1) [] s (length_lt s)
    let ⟨r, h₂⟩ ← expect stop .rightBrace "'\x7d'" r
    return ⟨body, r, by simp; omega⟩
  | s => do
    let ⟨statement?, r, h⟩ ← statement s
    return ⟨statement?.toList, r, h⟩
  termination_by s.length * 4 + 1
  decreasing_by all_goals (simp_wf <;> omega)

/-- A statement; a semicolon alone is none. -/
def statement (s : List Lexeme) : Except CompileError (Parsed (Option Statement) s.length) :=
  match s with
  | ⟨.semicolon, _⟩ :: r => .ok (.ahead none r)
  | ⟨.ifWord, _⟩ :: s => do
    let ⟨branch, r, h⟩ ← branch s
    return ⟨some branch, r, by simp; omega⟩
  | ⟨.forWord, _⟩ :: s => do
    let ⟨header, r, h₁⟩ ← loopHeader stop s
    let ⟨body, r, h₂⟩ ← block r
    return ⟨some (.loop header.variableName header.first header.last header.inclusive body), r,
      by simp; omega⟩
  | ⟨.letWord, _⟩ :: _ => .error .unsupportedDeclaration
  | ⟨.returnWord, _⟩ :: s => do
    let ⟨value, r, h₁⟩ ← returnValue stop s
    let ⟨r, h₂⟩ ← statementEnd stop r
    return ⟨some (.returns value), r, by simp; omega⟩
  | s => do
    let ⟨simple, r, h₁⟩ ← simpleStatement stop s
    let ⟨r, h₂⟩ ← statementEnd stop r
    return ⟨some simple, r, by omega⟩
  termination_by s.length * 4
  decreasing_by all_goals (simp_wf; omega)

/-- A branch after its first word. A branch may follow the word for the alternative directly. -/
def branch (s : List Lexeme) : Except CompileError (Parsed Statement s.length) := do
  let ⟨r, h₀⟩ ← expect stop .leftParen "'('" s
  let ⟨condition, r, h₁⟩ ← expression stop r
  let ⟨r, h₂⟩ ← expect stop .rightParen "')'" r
  let ⟨satisfied, r, h₃⟩ ← block r
  match r, h₃ with
  | ⟨.elseWord, _⟩ :: ⟨.ifWord, _⟩ :: r, h₃ =>
    let ⟨nested, r, h₄⟩ ← branch r
    return ⟨.branch condition satisfied [nested], r, by simp at h₃; omega⟩
  | ⟨.elseWord, _⟩ :: r, h₃ =>
    let ⟨unsatisfied, r, h₄⟩ ← block r
    return ⟨.branch condition satisfied unsatisfied, r, by simp at h₃; omega⟩
  | r, h₃ => return ⟨.guarded condition satisfied, r, by omega⟩
  termination_by s.length * 4 + 1
  decreasing_by all_goals (simp at *; omega)

end

end Parser

def Procedure.ofText (text : String) : Except CompileError Procedure := do
  let tokens ← TokenList.ofText text
  let s := tokens.lexemes
  let ⟨body, rest, _⟩ ← Parser.statements tokens.stop (s.length + 1) [] s (Parser.length_lt s)
  match rest with
  | [] => return body
  | rest => .error (Parser.unexpected tokens.stop "end of input" rest)

end Hologram.Script
