import Hologram.Proofs.Script.StatementParsing
import Hologram.Script.Compilation

/-! Procedures that only assign. The tokens of such a procedure tell its variables and their values,
and it is compiled to the same assignments with the values resolved. -/
namespace Hologram.Script

namespace Placeholder

/-- The tokens of a name and of what is reached by it. -/
def place (name : String) : Option Accessor → List Token
  | none => [.identifier name]
  | some (.index n) => [.identifier name, .leftBracket, .int n, .rightBracket]
  | some (.position x) => [.identifier name, .leftBracket, .identifier x, .rightBracket]
  | some (.field key) => [.identifier (name ++ "." ++ key)]

def shift : Option (BinaryOperator × Constant) → List Token
  | some (operator, .int n) => [.operator operator, .int n]
  | some (operator, .float x) => [.operator operator, .float x]
  | _ => []

def yield (p : Placeholder) : List Token :=
  .dollar :: .leftBracket :: (place p.name p.accessor ++ shift p.adjustment ++ [.rightBracket])

end Placeholder

namespace Parser

/-- The parts of a placeholder's name are joined by a point. -/
theorem placeholderName_cases (text : String) :
    placeholderName text = (text, none) ∨
      ∃ base field, placeholderName text = (base, some (.field field)) ∧
        base ++ "." ++ field = text := by
  unfold placeholderName
  dsimp only
  rw [Lexer.drop_takeWhile_length]
  cases hdrop : text.toList.dropWhile (· != '.') with
  | nil => exact .inl rfl
  | cons c field =>
    refine .inr ⟨_, _, rfl, ?_⟩
    obtain rfl : c = '.' := by
      have hc := List.head_dropWhile_not (· != '.') (l := text.toList) (by simp [hdrop])
      simpa [hdrop] using hc
    refine String.toList_inj.mp ?_
    calc _ = text.toList.takeWhile (· != '.') ++ '.' :: field := by simp
      _ = text.toList := by rw [← hdrop, List.takeWhile_append_dropWhile]

end Parser

theorem Position.place_eq {text : String} {ts : List Token} {accessor : Option Accessor}
    (h : Position (Parser.placeholderName text).2 ts accessor) :
    Placeholder.place (Parser.placeholderName text).1 accessor = .identifier text :: ts := by
  obtain hname | ⟨base, field, hname, rfl⟩ := Parser.placeholderName_cases text
  · rw [hname] at h ⊢
    cases h <;> rfl
  · rw [hname] at h ⊢
    cases h
    rfl

theorem Adjustment.shift_eq {ts : List Token} {adjustment : Option (BinaryOperator × Constant)}
    (h : Adjustment ts adjustment) : Placeholder.shift adjustment = ts := by
  cases h <;> rfl

/-- A placeholder has the tokens that spell it. -/
theorem Placeholder.yield_eq {text : String} {ts us : List Token} {accessor : Option Accessor}
    {adjustment : Option (BinaryOperator × Constant)}
    (hp : Position (Parser.placeholderName text).2 ts accessor) (ha : Adjustment us adjustment) :
    yield ⟨(Parser.placeholderName text).1, accessor, adjustment⟩ =
      .dollar :: .leftBracket :: .identifier text :: (ts ++ us ++ [.rightBracket]) := by
  rw [yield, hp.place_eq, ha.shift_eq]
  simp

/-- A placeholder is spelled by its tokens when its parts are. -/
theorem Placeholder.derives {text name : String} {ts us : List Token}
    {before accessor : Option Accessor} {adjustment : Option (BinaryOperator × Constant)}
    (htext : Parser.placeholderName text = (name, before)) (hp : Position before ts accessor)
    (ha : Adjustment us adjustment) :
    Derives .primary (yield ⟨name, accessor, adjustment⟩)
      (.placeholder ⟨name, accessor, adjustment⟩) := by
  have hposition : Position (Parser.placeholderName text).2 ts accessor := by rwa [htext]
  have hspelled : Derives .primary _ _ := .placeholder hposition ha
  rwa [← Placeholder.yield_eq hposition ha, htext] at hspelled

namespace Expression

mutual

/-- The tokens of an expression in their order, without the parentheses that group it. -/
def yield : Expression → List Token
  | int n => [.int n]
  | float x => [.float x]
  | bool b => [.bool b]
  | string text => [.string text]
  | name x => [.identifier x]
  | placeholder p => p.yield
  | call f arguments => .identifier f :: .leftParen :: (yieldAll arguments ++ [.rightParen])
  | index target position => yield target ++ .leftBracket :: (yield position ++ [.rightBracket])
  | binary op first second => yield first ++ .operator op :: yield second
  | unary .not operand => .bang :: yield operand
  | unary .negate operand => .operator .subtract :: yield operand
  | conditional condition satisfied unsatisfied =>
    yield condition ++ .question :: (yield satisfied ++ .colon :: yield unsatisfied)
  | guarded condition satisfied => yield condition ++ .question :: yield satisfied
  | indefinite | raw _ => []

def yieldAll : List Expression → List Token
  | [] => []
  | [e] => yield e
  | e :: es => yield e ++ .comma :: yieldAll es

end

/-- An expression that its tokens spell without parentheses. -/
def Ungrouped (e : Expression) : Prop :=
  Derives (.expression false) e.yield e

theorem ungrouped_int (n : Int) : (int n).Ungrouped :=
  .of_primary (.int n)

theorem ungrouped_placeholder {name : String} {ts us : List Token} {accessor : Option Accessor}
    {adjustment : Option (BinaryOperator × Constant)}
    (hname : Parser.placeholderName name = (name, none))
    (hp : Position none ts accessor) (ha : Adjustment us adjustment) :
    (placeholder ⟨name, accessor, adjustment⟩).Ungrouped :=
  .of_primary (Placeholder.derives hname hp ha)

end Expression

/-- Variables with the expressions that they are given. -/
abbrev Assignments := List (String × Expression)

namespace Assignments

variable {a b : Assignments}

/-- The tokens of assignments, each of which ends with a semicolon. -/
def tokens (a : Assignments) : List Token :=
  a.flatMap fun (x, e) => .identifier x :: .assign :: (e.yield ++ [.semicolon])

def procedure (a : Assignments) : Procedure :=
  a.map fun (x, e) => .assign (.name x) none e

def code (a : Assignments) : Code :=
  a.map fun (x, e) => .assign (.name x) e

end Assignments

/-- What takes no iterations is unrolled within every limit. -/
theorem Procedure.unroll_of_unrollBlock {bindings : Bindings} {p : Procedure} {code : Code}
    (h : unrollBlock bindings [] p = pure code) (limit : Nat) :
    p.unroll bindings limit = .ok code := by
  rw [unroll, h]
  rfl

theorem compileWithin_of_ofText {bindings : Bindings} {text : String} {p : Procedure} {code : Code}
    {limit : Nat} (htext : Procedure.ofText text = .ok p)
    (h : p.unroll bindings limit = .ok code) :
    compileWithin limit text bindings = .ok code.text := by
  rw [compileWithin, htext, ok_bind, h]
  rfl

namespace Assignments

variable {a b : Assignments} {text : String}

/-- The tokens of assignments spell them. -/
theorem forms (ha : ∀ entry ∈ a, entry.2.Ungrouped) :
    Forms .statements none a.tokens a.procedure := by
  induction a with
  | nil => exact .nil
  | cons entry rest ih =>
    obtain ⟨x, e⟩ := entry
    obtain ⟨he, hrest⟩ := List.forall_mem_cons.mp ha
    have hname : Derives (.expression false) [.identifier x] (.name x) := .of_primary (.name x)
    exact .cons (.ended (.assign .plain hname rfl he)) (ih hrest)

theorem procedure_ofText (htext : tokensOf text = .ok a.tokens)
    (ha : ∀ entry ∈ a, entry.2.Ungrouped) : Procedure.ofText text = .ok a.procedure :=
  Procedure.ofText_eq_ok_iff.mpr ⟨_, tokensOf_eq_ok_iff.mp htext, forms ha⟩

variable {bindings : Bindings}

/-- Each value is resolved on its own. -/
theorem unrollBlock_procedure (h : List.Forall₂ (fun written resolved =>
      resolved.1 = written.1 ∧ written.2.resolve bindings [] = .ok resolved.2) a b) :
    Procedure.unrollBlock bindings [] a.procedure = pure b.code := by
  induction h with
  | nil => rfl
  | @cons written resolved _ _ hfirst _ ih =>
    obtain ⟨x, e⟩ := written
    obtain ⟨x', value⟩ := resolved
    obtain ⟨rfl, hvalue⟩ : x' = x ∧ e.resolve bindings [] = .ok value := hfirst
    change Procedure.unrollBlock bindings [] (.assign (.name x') none e :: procedure _) = _
    rw [Procedure.unrollBlock, ih, Procedure.unrollStatement, hvalue, Expression.resolve]
    rfl

/-- A procedure that only assigns is compiled to assignments of the resolved values. -/
theorem compile_of_tokens (htext : tokensOf text = .ok a.tokens)
    (ha : ∀ entry ∈ a, entry.2.Ungrouped)
    (h : List.Forall₂ (fun written resolved =>
      resolved.1 = written.1 ∧ written.2.resolve bindings [] = .ok resolved.2) a b) :
    compile text bindings = .ok b.code.text :=
  compileWithin_of_ofText (procedure_ofText htext ha)
    (Procedure.unroll_of_unrollBlock (unrollBlock_procedure h) _)

end Assignments
end Hologram.Script
