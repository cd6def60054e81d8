import Hologram.Script.Expression

/-! Statements: as they are written, with loops and placeholders, and as code, without them. -/
namespace Hologram.Script

inductive Statement where
  /-- With an operator the old value of the target takes part, as in `target op= value`. -/
  | assign (target : Expression) (operator : Option BinaryOperator) (value : Expression)
  | eval (expression : Expression)
  | returns (value : Option Expression)
  /-- A branch without an alternative. -/
  | guarded (condition : Expression) (satisfied : List Statement)
  | branch (condition : Expression) (satisfied unsatisfied : List Statement)
  /-- The variable counts up from `first`, to `last` itself only when the loop is inclusive. -/
  | loop (variableName : String) (first last : Expression) (inclusive : Bool)
      (body : List Statement)
  deriving BEq, Repr

abbrev Procedure := List Statement

/-- A statement that runs as it stands. The type `τ` is that of the places that can be assigned. -/
inductive Instruction (τ : Type) where
  | assign (target : τ) (value : Expression)
  | eval (expression : Expression)
  | returns (value : Option Expression)
  | branch (condition : Expression) (satisfied unsatisfied : List (Instruction τ))
  deriving BEq, Repr

/-- Code as it is compiled: the target of an assignment is an expression. -/
abbrev Code := List (Instruction Expression)

/-- Code as it runs: the target of an assignment is a variable. -/
abbrev Program := List (Instruction String)

end Hologram.Script
