import Hologram.Script.Parser.Expression
import Mathlib.Tactic.SplitIfs

/-! The grammar of expressions, without a parser: which lists of tokens are which expression, and at
which level. An operator takes operands of its own precedence on its left and of a higher one on its
right, so that every list of tokens groups in one way. -/
namespace Hologram.Script

/-- The levels of the grammar, from the loosest to the tightest. -/
inductive Level where
  /-- An expression. One that does not open has an alternative for its last condition. -/
  | expression (opens : Bool)
  /-- Operands joined by operators of at least a precedence. -/
  | binary (minimum : Nat)
  | unary
  | postfixed
  | primary
  /-- A call up to a place where an argument may stand. -/
  | opened
  /-- A call up to the end of an argument. -/
  | filled
  deriving DecidableEq, Repr

/-- The tokens that add a position in brackets to the accessor of a placeholder. -/
inductive Position : Option Accessor → List Token → Option Accessor → Prop where
  | missing (accessor : Option Accessor) : Position accessor [] accessor
  | index (n : Int) : Position none [.leftBracket, .int n, .rightBracket] (some (.index n))
  | named (name : String) :
      Position none [.leftBracket, .identifier name, .rightBracket] (some (.position name))

/-- The tokens that adjust a placeholder. -/
inductive Adjustment : List Token → Option (BinaryOperator × Constant) → Prop where
  | missing : Adjustment [] none
  | int {operator : BinaryOperator} (h : Parser.adjusts operator = true) (n : Int) :
      Adjustment [.operator operator, .int n] (some (operator, .int n))
  | float {operator : BinaryOperator} (h : Parser.adjusts operator = true) (x : Float) :
      Adjustment [.operator operator, .float x] (some (operator, .float x))

/-- The expressions that tokens spell at each level. -/
inductive Derives : Level → List Token → Expression → Prop where
  | int (n : Int) : Derives .primary [.int n] (.int n)
  | float (x : Float) : Derives .primary [.float x] (.float x)
  | bool (b : Bool) : Derives .primary [.bool b] (.bool b)
  | string (text : String) : Derives .primary [.string text] (.string text)
  | name (x : String) : Derives .primary [.identifier x] (.name x)
  | placeholder {text : String} {ts us : List Token} {accessor : Option Accessor}
      {adjustment : Option (BinaryOperator × Constant)}
      (hp : Position (Parser.placeholderName text).2 ts accessor) (ha : Adjustment us adjustment) :
      Derives .primary
        (.dollar :: .leftBracket :: .identifier text :: (ts ++ us ++ [.rightBracket]))
        (.placeholder ⟨(Parser.placeholderName text).1, accessor, adjustment⟩)
  | group {opens : Bool} {ts : List Token} {e : Expression} (h : Derives (.expression opens) ts e) :
      Derives .primary (.leftParen :: (ts ++ [.rightParen])) e
  | call (f : String) : Derives .opened [.identifier f, .leftParen] (.call f [])
  | argument {opens : Bool} {f : String} {arguments : List Expression} {ts us : List Token}
      {e : Expression} (h : Derives .opened ts (.call f arguments))
      (he : Derives (.expression opens) us e) :
      Derives .filled (ts ++ us) (.call f (arguments ++ [e]))
  | comma {ts : List Token} {e : Expression} (h : Derives .filled ts e) :
      Derives .opened (ts ++ [.comma]) e
  | closeOpened {ts : List Token} {e : Expression} (h : Derives .opened ts e) :
      Derives .primary (ts ++ [.rightParen]) e
  | closeFilled {ts : List Token} {e : Expression} (h : Derives .filled ts e) :
      Derives .primary (ts ++ [.rightParen]) e
  | postfixed {ts : List Token} {e : Expression} (h : Derives .primary ts e) :
      Derives .postfixed ts e
  | index {opens : Bool} {ts us : List Token} {target position : Expression}
      (ht : Derives .postfixed ts target) (hp : Derives (.expression opens) us position) :
      Derives .postfixed (ts ++ .leftBracket :: (us ++ [.rightBracket])) (.index target position)
  | unary {ts : List Token} {e : Expression} (h : Derives .postfixed ts e) : Derives .unary ts e
  | not {ts : List Token} {e : Expression} (h : Derives .unary ts e) :
      Derives .unary (.bang :: ts) (.unary .not e)
  | negate {ts : List Token} {e : Expression} (h : Derives .unary ts e) :
      Derives .unary (.operator .subtract :: ts) e.negate
  | operand {k : Nat} {ts : List Token} {e : Expression} (h : Derives .unary ts e) :
      Derives (.binary k) ts e
  | operator {k : Nat} {operator : BinaryOperator} {ts us : List Token} {first second : Expression}
      (hk : k ≤ operator.precedence) (ha : Derives (.binary operator.precedence) ts first)
      (hb : Derives (.binary (operator.precedence + 1)) us second) :
      Derives (.binary k) (ts ++ .operator operator :: us) (.binary operator first second)
  | condition {opens : Bool} {ts : List Token} {e : Expression} (h : Derives (.binary 1) ts e) :
      Derives (.expression opens) ts e
  | conditional {opens : Bool} {ts us vs : List Token} {c s u : Expression}
      (hc : Derives (.binary 1) ts c) (hs : Derives (.expression false) us s)
      (hu : Derives (.expression opens) vs u) :
      Derives (.expression opens) (ts ++ .question :: (us ++ .colon :: vs)) (.conditional c s u)
  | guarded {opens : Bool} {ts us : List Token} {c s : Expression} (hc : Derives (.binary 1) ts c)
      (hs : Derives (.expression opens) us s) :
      Derives (.expression true) (ts ++ .question :: us) (.guarded c s)

namespace Level

/-- Whether what is derived at a level is an expression rather than a part of a call. -/
def isWhole : Level → Bool
  | opened | filled => false
  | _ => true

end Level

namespace Derives

variable {level : Level} {ts : List Token} {e : Expression}

theorem of_primary {opens : Bool} (h : Derives .primary ts e) : Derives (.expression opens) ts e :=
  .condition (.operand (.unary (.postfixed h)))

/-- An expression that does not open is an expression. -/
theorem open_of_closed (h : Derives (.expression false) ts e) :
    Derives (.expression true) ts e := by
  generalize hlevel : Level.expression false = level at h
  induction h with
  | condition h => exact .condition h
  | conditional hc hs hu _ _ ih =>
    cases hlevel
    exact .conditional hc hs (ih rfl)
  | guarded hc hs => exact .guarded hc hs
  | _ => contradiction

/-- Operators of the least precedence are the loosest of all. -/
theorem binary_one {k : Nat} (h : Derives (.binary k) ts e) : Derives (.binary 1) ts e := by
  cases h with
  | operand h => exact .operand h
  | operator _ ha hb => exact .operator (BinaryOperator.one_le_precedence _) ha hb

/-- Tighter operands are looser ones. -/
theorem binary_mono {j k : Nat} (h : Derives (.binary k) ts e) (hjk : j ≤ k) :
    Derives (.binary j) ts e := by
  cases h with
  | operand h => exact .operand h
  | operator hk ha hb => exact .operator (Nat.le_trans hjk hk) ha hb

end Derives

namespace Token

/-- How many parentheses tokens open and do not close. -/
def depth (ts : List Token) : Int :=
  ts.count .leftParen - ts.count .rightParen

@[simp] theorem depth_nil : depth [] = 0 := rfl

@[simp] theorem depth_append (ts us : List Token) : depth (ts ++ us) = depth ts + depth us := by
  simp only [depth, List.count_append]
  omega

@[simp] theorem depth_cons (t : Token) (ts : List Token) :
    depth (t :: ts) =
      depth ts + if t = .leftParen then 1 else if t = .rightParen then -1 else 0 := by
  simp only [depth, List.count_cons, beq_iff_eq]
  split_ifs <;> simp_all <;> omega

/-- Whether a token splits an expression into parts outside of parentheses. -/
def splits : Token → Bool
  | operator _ | bang | question | leftBracket => true
  | _ => false

def opensOperand : Token → Bool
  | int _ | float _ | bool _ | string _ | identifier _ | leftParen | dollar | bang => true
  | operator op => op == .subtract
  | _ => false

def endsOperand : Token → Bool
  | int _ | float _ | bool _ | string _ | identifier _ | rightParen | rightBracket => true
  | _ => false

def inExpression : Token → Bool
  | leftBrace | rightBrace | semicolon | assign | compoundAssign _ | increment | decrement => false
  | ifWord | elseWord | forWord | letWord | returnWord => false
  | _ => true

end Token

theorem Position.depth_eq_zero {before after : Option Accessor} {ts : List Token}
    (h : Position before ts after) : Token.depth ts = 0 := by
  cases h <;> rfl

theorem Position.inExpression {before after : Option Accessor} {ts : List Token}
    (h : Position before ts after) : ∀ t ∈ ts, t.inExpression = true := by
  cases h <;> simp [Token.inExpression]

theorem Adjustment.inExpression {adjustment : Option (BinaryOperator × Constant)}
    {ts : List Token} (h : Adjustment ts adjustment) : ∀ t ∈ ts, t.inExpression = true := by
  cases h <;> simp [Token.inExpression]

theorem Adjustment.depth_eq_zero {adjustment : Option (BinaryOperator × Constant)}
    {ts : List Token} (h : Adjustment ts adjustment) : Token.depth ts = 0 := by
  cases h <;> simp

namespace Derives
open Token

variable {level : Level} {ts : List Token} {e : Expression}

/-- An expression closes all its parentheses, and a part of a call all but one. -/
theorem depth_eq (h : Derives level ts e) :
    depth ts = if level.isWhole then 0 else 1 := by
  induction h with
  | placeholder hp ha => simp [hp.depth_eq_zero, ha.depth_eq_zero, Level.isWhole]
  | _ => simp_all [Level.isWhole]

theorem depth_eq_zero (h : Derives level ts e) (hlevel : level.isWhole = true) :
    depth ts = 0 := by
  rw [h.depth_eq, if_pos hlevel]

/-- An expression that nothing splits outside of parentheses needs no parentheses itself. -/
theorem primary_of_not_splits (h : Derives level ts e) (hlevel : level.isWhole = true)
    (hsplits : ∀ before t after, ts = before ++ t :: after → depth before = 0 →
      t.splits = false) : Derives .primary ts e := by
  induction h with
  | int n => exact .int n
  | float x => exact .float x
  | bool b => exact .bool b
  | string text => exact .string text
  | name x => exact .name x
  | placeholder hp ha => exact .placeholder hp ha
  | group h => exact .group h
  | closeOpened h => exact .closeOpened h
  | closeFilled h => exact .closeFilled h
  | call | argument | comma => contradiction
  | postfixed _ ih | unary _ ih | operand _ ih | condition _ ih => exact ih rfl hsplits
  | not h => cases hsplits [] _ _ rfl rfl
  | negate h => cases hsplits [] _ _ rfl rfl
  | index ht => cases hsplits _ _ _ rfl (ht.depth_eq_zero rfl)
  | operator _ ha => cases hsplits _ _ _ rfl (ha.depth_eq_zero rfl)
  | conditional hc => cases hsplits _ _ _ rfl (hc.depth_eq_zero rfl)
  | guarded hc => cases hsplits _ _ _ rfl (hc.depth_eq_zero rfl)

/-- An expression without a question mark is no conditional. -/
theorem binary_of_not_mem {opens : Bool} (h : Derives (.expression opens) ts e)
    (hts : Token.question ∉ ts) : Derives (.binary 1) ts e := by
  cases h with
  | condition h => exact h
  | conditional => simp at hts
  | guarded => simp at hts

/-- Only tokens that may stand in an expression do. -/
theorem inExpression (h : Derives level ts e) : ∀ t ∈ ts, t.inExpression = true := by
  induction h with
  | placeholder hp ha =>
    simp only [List.forall_mem_cons, List.forall_mem_append]
    exact ⟨rfl, rfl, rfl, ⟨hp.inExpression, ha.inExpression⟩, rfl, nofun⟩
  | postfixed _ ih | unary _ ih | operand _ ih | condition _ ih => exact ih
  | _ =>
    simp only [List.forall_mem_cons, List.forall_mem_append]
    and_intros <;> first | assumption | rfl | nofun

/-- Every expression begins with a token that may begin one. -/
theorem exists_cons (h : Derives level ts e) :
    ∃ t rest, ts = t :: rest ∧ t.opensOperand = true := by
  induction h with
  | not | negate | placeholder | group | int | float | bool | string | name | call =>
    exact ⟨_, _, rfl, rfl⟩
  | postfixed _ ih | unary _ ih | operand _ ih | condition _ ih => exact ih
  | argument _ _ ih | comma _ ih | closeOpened _ ih | closeFilled _ ih | index _ _ ih
  | operator _ _ _ ih | conditional _ _ _ ih | guarded _ _ ih =>
    obtain ⟨t, rest, rfl, ht⟩ := ih
    exact ⟨t, _, rfl, ht⟩

/-- Every expression ends with a token that may end one. -/
theorem getLast?_eq (h : Derives level ts e) (hlevel : level.isWhole = true) :
    ∃ t, ts.getLast? = some t ∧ t.endsOperand = true := by
  induction h with
  | int | float | bool | string | name => exact ⟨_, rfl, rfl⟩
  | group | closeOpened | closeFilled =>
    exact ⟨.rightParen, by simp [List.getLast?_append, List.getLast?_cons], rfl⟩
  | placeholder | index =>
    exact ⟨.rightBracket, by simp [List.getLast?_append, List.getLast?_cons], rfl⟩
  | call | argument | comma => contradiction
  | postfixed _ ih | unary _ ih | operand _ ih | condition _ ih => exact ih rfl
  | not _ ih | negate _ ih | operator _ _ _ _ ih | conditional _ _ _ _ _ ih
  | guarded _ _ _ ih =>
    obtain ⟨t, hlast, ht⟩ := ih rfl
    exact ⟨t, by simp [List.getLast?_append, List.getLast?_cons, hlast], ht⟩

end Derives
end Hologram.Script
