import Hologram.Script.Parser.Expression
import Hologram.Script.Procedure

/-! Parsing code that runs. A condition followed by a question mark and a brace begins a branch; in
every other place a question mark belongs to a conditional expression. -/
namespace Hologram.Script
namespace Parser

variable (stop : Nat)

mutual

/-- Instructions up to the end of their block, after those that are read already, in reverse. -/
def instructions (n : Nat) (read : Program) (s : List Lexeme) (h : s.length < n) :
    Except CompileError (Parsed Program n) :=
  match s, h with
  | [], h => .ok ⟨read.reverse, [], h⟩
  | ⟨.rightBrace, offset⟩ :: r, h => .ok ⟨read.reverse, ⟨.rightBrace, offset⟩ :: r, h⟩
  | ⟨.semicolon, _⟩ :: r, h => instructions n read r (by simp at h; omega)
  | s, h => do
    let ⟨instruction, r, h₁⟩ ← instruction s
    let ⟨r, h₂⟩ ← statementEnd stop r
    instructions n (instruction :: read) r (by omega)
  termination_by s.length * 4 + 2
  decreasing_by all_goals (simp at * <;> omega)

def instruction (s : List Lexeme) :
    Except CompileError (Parsed (Instruction String) s.length) :=
  match s with
  | ⟨.returnWord, _⟩ :: s => do
    let ⟨value, r, h⟩ ← returnValue stop s
    return ⟨.returns value, r, h⟩
  | s => do
    let ⟨first, r, h⟩ ← binary stop 1 s
    match r, h with
    | ⟨.assign, offset⟩ :: r, h => match first with
      | .name target =>
        let ⟨value, r, h₁⟩ ← expression stop r
        return ⟨.assign target value, r, by simp at h; omega⟩
      | _ => .error (.malformed offset .invalidTarget)
    | ⟨.question, _⟩ :: ⟨.leftBrace, offset⟩ :: r, h =>
      let ⟨satisfied, r, h₁⟩ ← braced (⟨.leftBrace, offset⟩ :: r)
      match r, h₁ with
      | ⟨.colon, _⟩ :: r, h₁ =>
        let ⟨unsatisfied, r, h₂⟩ ← braced r
        return ⟨.branch first satisfied unsatisfied, r, by simp at h h₁; omega⟩
      | r, h₁ => return ⟨.branch first satisfied [], r, by simp at h h₁; omega⟩
    | r, h =>
      let ⟨value, r, h₁⟩ ← conditionalTail stop s.length first r h
      return ⟨.eval value, r, h₁⟩
  termination_by s.length * 4 + 1
  decreasing_by all_goals (simp at *; omega)

def braced (s : List Lexeme) : Except CompileError (Parsed Program s.length) := do
  let ⟨r, h₁⟩ ← expect stop .leftBrace "'\x7b'" s
  let ⟨body, r, h₂⟩ ← instructions (r.length + 1) [] r (length_lt r)
  let ⟨r, h₃⟩ ← expect stop .rightBrace "'\x7d'" r
  return ⟨body, r, by omega⟩
  termination_by s.length * 4
  decreasing_by all_goals omega

end

end Parser

def Program.ofText (text : String) : Except CompileError Program := do
  let tokens ← TokenList.ofText text
  let s := tokens.lexemes
  let ⟨body, rest, _⟩ ← Parser.instructions tokens.stop (s.length + 1) [] s (Parser.length_lt s)
  match rest with
  | [] => return body
  | rest => .error (Parser.unexpected tokens.stop "end of script" rest)

end Hologram.Script
