import Hologram.Proofs.Script.Grammar
import Hologram.Script.Parser.Procedure

/-! The grammar of statements, without a parser: which lists of tokens are which statements before
which token. What comes next matters in two places: a statement may lack its semicolon at the end of
its block alone, and an alternative belongs to the nearest condition that has none. -/
namespace Hologram.Script

def Expression.isPlace : Expression → Bool
  | name _ | index _ _ => true
  | _ => false

namespace Procedure

mutual

def statementExpressions : Statement → List Expression
  | .assign target _ value => [target, value]
  | .eval e => [e]
  | .returns value => value.toList
  | .guarded condition satisfied => condition :: expressions satisfied
  | .branch condition satisfied unsatisfied =>
    condition :: (expressions satisfied ++ expressions unsatisfied)
  | .loop _ first last _ body => first :: last :: expressions body

/-- The expressions of a procedure, bounds of loops included. -/
def expressions : Procedure → List Expression
  | [] => []
  | s :: rest => statementExpressions s ++ expressions rest

end

theorem expressions_append (p q : Procedure) :
    expressions (p ++ q) = expressions p ++ expressions q := by
  induction p with
  | nil => rfl
  | cons s rest ih => rw [List.cons_append, expressions, expressions, ih, List.append_assoc]

theorem expressions_singleton (s : Statement) : expressions [s] = statementExpressions s := by
  rw [expressions, expressions, List.append_nil]

mutual

def statementTargets : Statement → List Expression
  | .assign target _ _ => [target]
  | .guarded _ satisfied => targets satisfied
  | .branch _ satisfied unsatisfied => targets satisfied ++ targets unsatisfied
  | .loop _ _ _ _ body => targets body
  | _ => []

def targets : Procedure → List Expression
  | [] => []
  | s :: rest => statementTargets s ++ targets rest

end

theorem targets_append (p q : Procedure) : targets (p ++ q) = targets p ++ targets q := by
  induction p with
  | nil => rfl
  | cons s rest ih => rw [List.cons_append, targets, targets, ih, List.append_assoc]

theorem targets_singleton (s : Statement) : targets [s] = statementTargets s := by
  rw [targets, targets, List.append_nil]

end Procedure

/-- An expression that tokens of a text spell, or the one of a count. -/
def SpelledIn (ts : List Token) (e : Expression) : Prop :=
  e = .int 1 ∨ ∃ level us, us <:+: ts ∧ Derives level us e

theorem SpelledIn.mono {us ts : List Token} {e : Expression} (h : SpelledIn us e)
    (hus : us <:+: ts) : SpelledIn ts e := by
  rcases h with rfl | ⟨level, vs, hvs, he⟩
  · exact .inl rfl
  · exact .inr ⟨level, vs, hvs.trans hus, he⟩

/-- The tokens that count a place by one, each with what it does. -/
inductive CountsBy : Token → BinaryOperator → Prop where
  | up : CountsBy .increment .add
  | down : CountsBy .decrement .subtract

/-- The tokens that assign, each with the operator by which the old value takes part. -/
inductive AssignsBy : Token → Option BinaryOperator → Prop where
  | plain : AssignsBy .assign none
  | combined (operator : BinaryOperator) : AssignsBy (.compoundAssign operator) (some operator)

/-- The tokens of a statement that holds no others, without its semicolon. -/
inductive Simple : List Token → Statement → Prop where
  | countBefore {sign : Token} {operator : BinaryOperator} {ts : List Token} {target : Expression}
      (hs : CountsBy sign operator) (ht : Derives .postfixed ts target)
      (hplace : target.isPlace = true) :
      Simple (sign :: ts) (.assign target (some operator) (.int 1))
  | countAfter {sign : Token} {operator : BinaryOperator} {opens : Bool} {ts : List Token}
      {target : Expression} (hs : CountsBy sign operator)
      (ht : Derives (.expression opens) ts target) (hplace : target.isPlace = true) :
      Simple (ts ++ [sign]) (.assign target (some operator) (.int 1))
  | assign {sign : Token} {operator : Option BinaryOperator} {opens opens' : Bool}
      {ts us : List Token} {target value : Expression} (hs : AssignsBy sign operator)
      (ht : Derives (.expression opens) ts target) (hplace : target.isPlace = true)
      (hv : Derives (.expression opens') us value) :
      Simple (ts ++ sign :: us) (.assign target operator value)
  | eval {opens : Bool} {ts : List Token} {e : Expression} (h : Derives (.expression opens) ts e) :
      Simple ts (.eval e)
  | returnsNothing : Simple [.returnWord] (.returns none)
  | returns {opens : Bool} {ts : List Token} {e : Expression}
      (h : Derives (.expression opens) ts e) : Simple (.returnWord :: ts) (.returns (some e))

inductive Heads : List Token → Parser.LoopHeader → Prop where
  | counting {words ts us step : List Token} {x : String} {opens : Bool} {first last : Expression}
      {inclusive : Bool} (hwords : words = [] ∨ words = [.letWord])
      (hfirst : Derives (.expression opens) ts first) (hlast : Derives (.binary 1) us last)
      (hstep : step = [.identifier x, .increment] ∨ step = [.increment, .identifier x]) :
      Heads (.leftParen :: (words ++ .identifier x :: .assign :: (ts ++ .semicolon ::
          .identifier x :: .operator (if inclusive then .lessEqual else .less) ::
            (us ++ .semicolon :: (step ++ [.rightParen])))))
        ⟨x, first, last, inclusive⟩

/-- The parts that hold statements. -/
inductive Part where
  | statement
  /-- A block in braces, or one statement in its place. -/
  | block
  | statements
  deriving DecidableEq, Repr

/-- The statements that tokens spell before the token that comes next, if one does. -/
inductive Forms : Part → Option Token → List Token → List Statement → Prop where
  | skip {next : Option Token} : Forms .statement next [.semicolon] []
  | ended {next : Option Token} {ts : List Token} {s : Statement} (h : Simple ts s) :
      Forms .statement next (ts ++ [.semicolon]) [s]
  /-- The last statement of a block needs no semicolon. -/
  | last {next : Option Token} {ts : List Token} {s : Statement} (h : Simple ts s)
      (hnext : ∀ t ∈ next, t = .rightBrace) : Forms .statement next ts [s]
  | guarded {next : Option Token} {opens : Bool} {ts us : List Token} {c : Expression}
      {satisfied : List Statement} (hc : Derives (.expression opens) ts c)
      (h : Forms .block next us satisfied) (hnext : next ≠ some .elseWord) :
      Forms .statement next (.ifWord :: .leftParen :: (ts ++ .rightParen :: us))
        [.guarded c satisfied]
  | branch {next : Option Token} {opens : Bool} {ts us vs : List Token} {c : Expression}
      {satisfied unsatisfied : List Statement} (hc : Derives (.expression opens) ts c)
      (h : Forms .block (some .elseWord) us satisfied) (h' : Forms .block next vs unsatisfied) :
      Forms .statement next
        (.ifWord :: .leftParen :: (ts ++ .rightParen :: (us ++ .elseWord :: vs)))
        [.branch c satisfied unsatisfied]
  | loop {next : Option Token} {ts us : List Token} {header : Parser.LoopHeader}
      {body : List Statement} (hheader : Heads ts header) (h : Forms .block next us body) :
      Forms .statement next (.forWord :: (ts ++ us))
        [.loop header.variableName header.first header.last header.inclusive body]
  | single {next : Option Token} {ts : List Token} {p : List Statement}
      (h : Forms .statement next ts p) : Forms .block next ts p
  | braced {next : Option Token} {ts : List Token} {p : List Statement}
      (h : Forms .statements (some .rightBrace) ts p) :
      Forms .block next (.leftBrace :: (ts ++ [.rightBrace])) p
  | nil {next : Option Token} : Forms .statements next [] []
  | cons {next : Option Token} {ts us : List Token} {p q : List Statement}
      (h : Forms .statement (us.head?.or next) ts p) (h' : Forms .statements next us q) :
      Forms .statements next (ts ++ us) (p ++ q)

def Token.opensStatement : Token → Bool
  | increment | decrement | returnWord | ifWord | forWord | semicolon => true
  | t => t.opensOperand

theorem Token.opensStatement_of_opensOperand {t : Token} (ht : t.opensOperand = true) :
    t.opensStatement = true := by
  cases t <;> first | rfl | exact ht

/-- A statement that holds no others begins with a token that begins a statement. -/
theorem Simple.exists_cons {ts : List Token} {s : Statement} (h : Simple ts s) :
    ∃ t us, ts = t :: us ∧ t.opensStatement = true := by
  cases h with
  | countBefore hs => exact ⟨_, _, rfl, by cases hs <;> rfl⟩
  | returnsNothing | returns => exact ⟨_, _, rfl, rfl⟩
  | countAfter _ h | assign _ h | eval h =>
    obtain ⟨t, us, rfl, ht⟩ := h.exists_cons
    exact ⟨t, _, rfl, Token.opensStatement_of_opensOperand ht⟩

/-- A statement begins with a token that begins one. -/
theorem Forms.exists_cons {next : Option Token} {ts : List Token} {p : List Statement}
    (h : Forms .statement next ts p) : ∃ t us, ts = t :: us ∧ t.opensStatement = true := by
  cases h with
  | skip | guarded | branch | loop => exact ⟨_, _, rfl, rfl⟩
  | ended h | last h =>
    obtain ⟨t, us, rfl, ht⟩ := h.exists_cons
    exact ⟨t, _, rfl, ht⟩

theorem CountsBy.inExpression {sign : Token} {operator : BinaryOperator}
    (h : CountsBy sign operator) : sign.inExpression = false := by
  cases h <;> rfl

theorem AssignsBy.inExpression {sign : Token} {operator : Option BinaryOperator}
    (h : AssignsBy sign operator) : sign.inExpression = false := by
  cases h <;> rfl

theorem Derives.spelledIn {level : Level} {us ts : List Token} {e : Expression}
    (h : Derives level us e) (hus : us <:+: ts) : SpelledIn ts e :=
  .inr ⟨level, us, hus, h⟩

theorem Simple.spelledIn {ts : List Token} {s : Statement} (h : Simple ts s) :
    ∀ e ∈ Procedure.statementExpressions s, SpelledIn ts e := by
  have hone (us : List Token) : SpelledIn us (.int 1) := .inl rfl
  cases h with
  | countBefore hs ht =>
    exact List.forall_mem_cons.mpr ⟨ht.spelledIn (List.suffix_cons _ _).isInfix,
      List.forall_mem_singleton.mpr (hone _)⟩
  | countAfter hs ht =>
    exact List.forall_mem_cons.mpr ⟨ht.spelledIn (List.prefix_append _ _).isInfix,
      List.forall_mem_singleton.mpr (hone _)⟩
  | @assign _ _ _ _ us vs _ _ hs ht hplace hv =>
    exact List.forall_mem_cons.mpr ⟨ht.spelledIn (List.prefix_append _ _).isInfix,
      List.forall_mem_singleton.mpr (hv.spelledIn
        ((List.suffix_cons _ vs).trans (List.suffix_append us _)).isInfix)⟩
  | eval h => exact List.forall_mem_singleton.mpr (h.spelledIn List.infix_rfl)
  | returnsNothing => nofun
  | returns h => exact List.forall_mem_singleton.mpr (h.spelledIn (List.suffix_cons _ _).isInfix)

theorem Simple.places {ts : List Token} {s : Statement} (h : Simple ts s) :
    ∀ t ∈ Procedure.statementTargets s, t.isPlace = true := by
  cases h with
  | countBefore _ _ hplace | countAfter _ _ hplace | assign _ _ hplace =>
    exact List.forall_mem_singleton.mpr hplace
  | _ => nofun

theorem Heads.spelledIn {ts : List Token} {header : Parser.LoopHeader} (h : Heads ts header) :
    SpelledIn ts header.first ∧ SpelledIn ts header.last := by
  cases h with
  | @counting words us vs step x _ _ _ inclusive _ hfirst hlast =>
    let comparison : Token := .operator (if inclusive then .lessEqual else .less)
    constructor
    · exact hfirst.spelledIn ⟨.leftParen :: (words ++ [.identifier x, .assign]),
        .semicolon :: .identifier x :: comparison :: (vs ++ .semicolon :: (step ++ [.rightParen])),
        by simp [comparison]⟩
    · exact hlast.spelledIn ⟨.leftParen :: (words ++ .identifier x :: .assign ::
        (us ++ [.semicolon, .identifier x, comparison])),
        .semicolon :: (step ++ [.rightParen]), by simp [comparison]⟩

namespace Forms
open Procedure

variable {part : Part} {next : Option Token} {ts : List Token} {p : List Statement}

/-- The expressions of statements are spelled by their tokens. -/
theorem spelledIn (h : Forms part next ts p) : ∀ e ∈ expressions p, SpelledIn ts e := by
  induction h with
  | skip | nil => nofun
  | ended h =>
    rw [expressions_singleton]
    exact fun e he => (h.spelledIn e he).mono (List.prefix_append _ _).isInfix
  | last h =>
    rw [expressions_singleton]
    exact h.spelledIn
  | @guarded _ _ ts us c _ hc _ _ ih =>
    rw [expressions_singleton]
    refine List.forall_mem_cons.mpr ⟨hc.spelledIn ⟨[.ifWord, .leftParen], .rightParen :: us, ?_⟩,
      fun e he => (ih e he).mono ⟨.ifWord :: .leftParen :: (ts ++ [.rightParen]), [], ?_⟩⟩
    · simp
    · simp
  | @branch _ _ ts us vs c _ _ hc _ _ ih ih' =>
    rw [expressions_singleton]
    refine List.forall_mem_cons.mpr
      ⟨hc.spelledIn ⟨[.ifWord, .leftParen], .rightParen :: (us ++ .elseWord :: vs), ?_⟩,
        List.forall_mem_append.mpr ⟨fun e he => (ih e he).mono
          ⟨.ifWord :: .leftParen :: (ts ++ [.rightParen]), .elseWord :: vs, ?_⟩,
          fun e he => (ih' e he).mono
          ⟨.ifWord :: .leftParen :: (ts ++ .rightParen :: (us ++ [.elseWord])), [], ?_⟩⟩⟩
    · simp
    · simp
    · simp
  | @loop _ ts us header _ hheader _ ih =>
    rw [expressions_singleton]
    have hspelled {e : Expression} (he : SpelledIn ts e) : SpelledIn (.forWord :: (ts ++ us)) e :=
      he.mono ⟨[.forWord], us, by simp⟩
    refine List.forall_mem_cons.mpr ⟨hspelled hheader.spelledIn.1,
      List.forall_mem_cons.mpr ⟨hspelled hheader.spelledIn.2, fun e he => (ih e he).mono ?_⟩⟩
    exact ⟨.forWord :: ts, [], by simp⟩
  | single _ ih => exact ih
  | @braced _ ts _ _ ih => exact fun e he => (ih e he).mono ⟨[.leftBrace], [.rightBrace], by simp⟩
  | @cons _ ts us _ _ _ _ ih ih' =>
    rw [expressions_append]
    exact List.forall_mem_append.mpr
      ⟨fun e he => (ih e he).mono (List.prefix_append ts us).isInfix,
        fun e he => (ih' e he).mono (List.suffix_append ts us).isInfix⟩

/-- Statements assign only to places. -/
theorem places (h : Forms part next ts p) : ∀ t ∈ targets p, t.isPlace = true := by
  induction h with
  | skip | nil => nofun
  | ended h | last h =>
    rw [targets_singleton]
    exact h.places
  | guarded _ _ _ ih | loop _ _ ih =>
    rw [targets_singleton]
    exact ih
  | branch _ _ _ ih ih' =>
    rw [targets_singleton]
    exact List.forall_mem_append.mpr ⟨ih, ih'⟩
  | single _ ih | braced _ ih => exact ih
  | cons _ _ ih ih' =>
    rw [targets_append]
    exact List.forall_mem_append.mpr ⟨ih, ih'⟩

end Forms
end Hologram.Script
