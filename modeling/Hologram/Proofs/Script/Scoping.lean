import Hologram.Proofs.Script.Iterations
import Hologram.Proofs.Script.Naming
import Hologram.Proofs.Script.Unrolling

/-! What becomes of an expression where it is compiled. A loop variable becomes the integer of the
innermost iteration of its name, a placeholder becomes a constant, and nothing else changes. Code
holds the expressions of its procedure in their order, those of a loop once for each iteration. -/
namespace Hologram.Script

namespace Expression

/-- Whether an expression is a literal or code that is not read again. -/
def isLiteral : Expression → Bool
  | int _ | float _ | indefinite | bool _ | string _ | raw _ => true
  | _ => false

mutual

/-- What an expression becomes inside the loops of `scope`. -/
inductive Becomes (scope : Scope) : Expression → Expression → Prop where
  | literal {e : Expression} (he : e.isLiteral = true) : Becomes scope e e
  | loopVariable {x : String} {n : Int} (hx : scope.get? x = some n) :
      Becomes scope (.name x) (.int n)
  | variable {x : String} (hx : scope.get? x = none) : Becomes scope (.name x) (.name x)
  | placeholder (p : Placeholder) {r : Expression} (hr : ∀ d ∈ r.parts, d.isNameless = true) :
      Becomes scope (.placeholder p) r
  | call (f : String) {es rs : List Expression} (h : AllBecome scope es rs) :
      Becomes scope (.call f es) (.call f rs)
  | index {a a' b b' : Expression} (ha : Becomes scope a a') (hb : Becomes scope b b') :
      Becomes scope (.index a b) (.index a' b')
  | binary (op : BinaryOperator) {a a' b b' : Expression} (ha : Becomes scope a a')
      (hb : Becomes scope b b') : Becomes scope (.binary op a b) (.binary op a' b')
  | unary (op : UnaryOperator) {a a' : Expression} (ha : Becomes scope a a') :
      Becomes scope (.unary op a) (.unary op a')
  | conditional {a a' b b' c c' : Expression} (ha : Becomes scope a a') (hb : Becomes scope b b')
      (hc : Becomes scope c c') : Becomes scope (.conditional a b c) (.conditional a' b' c')
  | guarded {a a' b b' : Expression} (ha : Becomes scope a a') (hb : Becomes scope b b') :
      Becomes scope (.guarded a b) (.guarded a' b')

inductive AllBecome (scope : Scope) : List Expression → List Expression → Prop where
  | nil : AllBecome scope [] []
  | cons {e r : Expression} {es rs : List Expression} (h : Becomes scope e r)
      (hs : AllBecome scope es rs) : AllBecome scope (e :: es) (r :: rs)

end

variable {bindings : Bindings} {scope : Scope}

mutual

/-- Resolving changes loop variables and placeholders alone. -/
theorem becomes_of_resolve {e r : Expression} (h : e.resolve bindings scope = .ok r) :
    Becomes scope e r := by
  cases e with
  | name x =>
    rw [resolve] at h
    cases hx : scope.get? x <;> rw [hx] at h <;> cases h
    · exact .variable hx
    · exact .loopVariable hx
  | placeholder p =>
    rw [resolve] at h
    exact .placeholder p (Placeholder.isNameless_of_resolve h)
  | call f arguments =>
    rw [resolve] at h
    obtain ⟨es, hes, h⟩ := bind_eq_ok.mp h
    cases pure_eq_ok.mp h
    exact .call f (allBecome_of_resolveAll hes)
  | index a b =>
    rw [resolve] at h
    obtain ⟨a', ha, h⟩ := bind_eq_ok.mp h
    obtain ⟨b', hb, h⟩ := bind_eq_ok.mp h
    cases pure_eq_ok.mp h
    exact .index (becomes_of_resolve ha) (becomes_of_resolve hb)
  | binary op a b =>
    rw [resolve] at h
    obtain ⟨a', ha, h⟩ := bind_eq_ok.mp h
    obtain ⟨b', hb, h⟩ := bind_eq_ok.mp h
    cases pure_eq_ok.mp h
    exact .binary op (becomes_of_resolve ha) (becomes_of_resolve hb)
  | unary op a =>
    rw [resolve] at h
    obtain ⟨a', ha, h⟩ := bind_eq_ok.mp h
    cases pure_eq_ok.mp h
    exact .unary op (becomes_of_resolve ha)
  | conditional a b c =>
    rw [resolve] at h
    obtain ⟨a', ha, h⟩ := bind_eq_ok.mp h
    obtain ⟨b', hb, h⟩ := bind_eq_ok.mp h
    obtain ⟨c', hc, h⟩ := bind_eq_ok.mp h
    cases pure_eq_ok.mp h
    exact .conditional (becomes_of_resolve ha) (becomes_of_resolve hb) (becomes_of_resolve hc)
  | guarded a b =>
    rw [resolve] at h
    obtain ⟨a', ha, h⟩ := bind_eq_ok.mp h
    obtain ⟨b', hb, h⟩ := bind_eq_ok.mp h
    cases pure_eq_ok.mp h
    exact .guarded (becomes_of_resolve ha) (becomes_of_resolve hb)
  | _ =>
    simp only [resolve] at h
    cases h
    exact .literal rfl

theorem allBecome_of_resolveAll {es rs : List Expression}
    (h : resolveAll bindings scope es = .ok rs) : AllBecome scope es rs := by
  cases es with
  | nil =>
    rw [resolveAll] at h
    cases h
    exact .nil
  | cons e es =>
    rw [resolveAll] at h
    obtain ⟨r, hr, h⟩ := bind_eq_ok.mp h
    obtain ⟨rs, hrs, h⟩ := bind_eq_ok.mp h
    cases pure_eq_ok.mp h
    exact .cons (becomes_of_resolve hr) (allBecome_of_resolveAll hrs)

end

/-- Whether an expression is no placeholder and no variable of a loop of `scope`. -/
def Free (scope : Scope) (e : Expression) : Prop :=
  (∀ p, e ≠ .placeholder p) ∧ ∀ entry ∈ scope, e ≠ .name entry.1

theorem free_of_isNameless {e : Expression} (h : e.isNameless = true) : e.Free scope := by
  constructor
  · rintro p rfl
    contradiction
  · rintro entry - rfl
    contradiction

theorem isNameless_of_isLiteral {e : Expression} (h : e.isLiteral = true) :
    ∀ d ∈ e.parts, d.isNameless = true := by
  cases e <;> first | contradiction | exact List.forall_mem_singleton.mpr rfl

/-- A variable without a value in `scope` is that of no loop. -/
theorem free_name {x : String} (h : scope.get? x = none) : (name x).Free scope := by
  refine ⟨nofun, fun entry hentry hx => ?_⟩
  have hne : x ≠ entry.1 := bne_iff_ne.mp (List.lookup_eq_none_iff.mp h entry hentry)
  exact hne (name.inj hx)

mutual

/-- Nothing is left of placeholders and of the variables of the loops. -/
theorem free_of_becomes {e r : Expression} (h : Becomes scope e r) :
    ∀ d ∈ r.parts, d.Free scope := by
  cases h with
  | literal he => exact fun d hd => free_of_isNameless (isNameless_of_isLiteral he d hd)
  | loopVariable => exact List.forall_mem_singleton.mpr (free_of_isNameless rfl)
  | «variable» hx => exact List.forall_mem_singleton.mpr (free_name hx)
  | placeholder p hr => exact fun d hd => free_of_isNameless (hr d hd)
  | call f h => exact List.forall_mem_cons.mpr ⟨⟨nofun, nofun⟩, free_of_allBecome h⟩
  | unary op ha => exact List.forall_mem_cons.mpr ⟨free_of_isNameless rfl, free_of_becomes ha⟩
  | index ha hb | binary op ha hb | guarded ha hb =>
    exact List.forall_mem_cons.mpr ⟨free_of_isNameless rfl,
      List.forall_mem_append.mpr ⟨free_of_becomes ha, free_of_becomes hb⟩⟩
  | conditional ha hb hc =>
    simp only [parts, List.forall_mem_cons, List.forall_mem_append]
    exact ⟨free_of_isNameless rfl, ⟨free_of_becomes ha, free_of_becomes hb⟩, free_of_becomes hc⟩

theorem free_of_allBecome {es rs : List Expression} (h : AllBecome scope es rs) :
    ∀ d ∈ partsOfAll rs, d.Free scope := by
  cases h with
  | nil => nofun
  | cons h hs => exact List.forall_mem_append.mpr ⟨free_of_becomes h, free_of_allBecome hs⟩

end

end Expression

namespace Procedure
open Expression

variable (bindings : Bindings)

mutual

/-- The expressions that a statement leaves in the code, each with the loops that it stands in, and
those in a loop once for each iteration. Where an assignment has an operator, the value is
calculated from the target. -/
def statementSites (scope : Scope) : Statement → List (Scope × Expression)
  | .assign target none value => [(scope, target), (scope, value)]
  | .assign target (some op) value => [(scope, target), (scope, .binary op target value)]
  | .eval e => [(scope, e)]
  | .returns value => value.toList.map fun e => (scope, e)
  | .guarded condition satisfied => (scope, condition) :: sites scope satisfied
  | .branch condition satisfied unsatisfied =>
    (scope, condition) :: (sites scope satisfied ++ sites scope unsatisfied)
  | .loop v first last inclusive body =>
    match first.bound? bindings scope, last.bound? bindings scope with
    | some low, some high =>
      (loopValues low high inclusive).flatMap fun i => sites ((v, i) :: scope) body
    | _, _ => []

/-- The expressions that several statements leave in the code. -/
def sites (scope : Scope) : List Statement → List (Scope × Expression)
  | [] => []
  | s :: rest => statementSites scope s ++ sites scope rest

end

/-- What an expression at its site has become in the code. -/
def Lowered (site : Scope × Expression) (e : Expression) : Prop :=
  Becomes site.1 site.2 e ∧ ∀ d ∈ e.parts, d.Free site.1

variable {bindings} {scope : Scope}

theorem lowered_of_becomes {e r : Expression} (h : Becomes scope e r) : Lowered (scope, e) r :=
  ⟨h, free_of_becomes h⟩

theorem lowered_of_resolve {e r : Expression} (h : e.resolve bindings scope = .ok r) :
    Lowered (scope, e) r :=
  lowered_of_becomes (becomes_of_resolve h)

theorem expressions_flatten {values : List Int} {parts : List Code}
    {f : Int → List (Scope × Expression)}
    (h : List.Forall₂ (fun i (part : Code) => List.Forall₂ Lowered (f i) part.expressions)
      values parts) : List.Forall₂ Lowered (values.flatMap f) (Code.expressions parts.flatten) := by
  induction h with
  | nil => exact .nil
  | cons hpart _ ih =>
    rw [List.flatMap_cons, List.flatten_cons, Code.expressions_append]
    exact List.rel_append hpart ih

mutual

theorem lowered_of_unrollStatement : ∀ (s : Statement) {scope : Scope} {left left' : Nat}
    {code : Code}, (unrollStatement bindings scope s).run left = .ok (code, left') →
      List.Forall₂ Lowered (statementSites bindings scope s) code.expressions
  | .assign target operator value, scope, left, left', code, h => by
    cases expands_of_run h with
    | assign _ htarget hvalue =>
      cases operator with
      | none => exact .cons (lowered_of_resolve htarget) (.cons (lowered_of_resolve hvalue) .nil)
      | some op =>
        have hbinary := (becomes_of_resolve htarget).binary op (becomes_of_resolve hvalue)
        exact .cons (lowered_of_resolve htarget) (.cons (lowered_of_becomes hbinary) .nil)
  | .eval e, scope, left, left', code, h => by
    cases expands_of_run h with
    | eval hr => exact .cons (lowered_of_resolve hr) .nil
  | .returns none, scope, left, left', code, h => by
    cases expands_of_run h with
    | returnsNothing => exact .nil
  | .returns (some value), scope, left, left', code, h => by
    cases expands_of_run h with
    | returns hr => exact .cons (lowered_of_resolve hr) .nil
  | .guarded condition satisfied, scope, left, left', code, h => by
    cases expands_of_run h with
    | guarded hcondition hsatisfied =>
      rw [Code.expressions_singleton, Code.instructionExpressions, Code.expressions,
        List.append_nil]
      exact .cons (lowered_of_resolve hcondition) (lowered_of_unrollBlock satisfied hsatisfied)
  | .branch condition satisfied unsatisfied, scope, left, left', code, h => by
    cases expands_of_run h with
    | branch hcondition hsatisfied hunsatisfied =>
      rw [Code.expressions_singleton]
      exact .cons (lowered_of_resolve hcondition)
        (List.rel_append (lowered_of_unrollBlock satisfied hsatisfied)
          (lowered_of_unrollBlock unsatisfied hunsatisfied))
  | .loop v first last inclusive body, scope, left, left', code, h => by
    cases expands_of_run h with
    | loop hfirst hlow hlast hhigh _ hparts =>
      rw [statementSites, bound?_of_resolve hfirst hlow, bound?_of_resolve hlast hhigh]
      refine expressions_flatten ((forall₂_of_run_mapM_eq_ok hparts).imp ?_)
      rintro i part ⟨_, _, hpart⟩
      exact lowered_of_unrollBlock body hpart

theorem lowered_of_unrollBlock : ∀ (ss : List Statement) {scope : Scope} {left left' : Nat}
    {code : Code}, (unrollBlock bindings scope ss).run left = .ok (code, left') →
      List.Forall₂ Lowered (sites bindings scope ss) code.expressions
  | [], scope, left, left', code, h => by
    rw [unrollBlock_nil h]
    exact .nil
  | s :: rest, scope, left, left', code, h => by
    obtain ⟨first, _, more, rfl, hfirst, hmore⟩ := unrollBlock_cons h
    rw [sites, Code.expressions_append]
    exact List.rel_append (lowered_of_unrollStatement s hfirst) (lowered_of_unrollBlock rest hmore)

end

/-- The code of a procedure holds its expressions, in their order and with those of a loop once for
each iteration. Each is there as it was written, but with the integer of the innermost iteration
for every loop variable and with a constant for every placeholder, so that it holds no placeholder
and no variable of a loop around it. -/
theorem expressions_of_unroll {p : Procedure} {limit : Nat} {code : Code}
    (h : p.unroll bindings limit = .ok code) :
    List.Forall₂ (fun site e => Becomes site.1 site.2 e ∧ ∀ d ∈ e.parts, d.Free site.1)
      (sites bindings [] p) code.expressions := by
  obtain ⟨⟨_, left⟩, hblock, hcode⟩ := bind_eq_ok.mp h
  cases pure_eq_ok.mp hcode
  exact lowered_of_unrollBlock p hblock

/-- After an inner loop has ended, its variable is again that of the outer loop. -/
theorem expressions_of_unroll_hiding :
    let body : List Statement :=
      [.assign (.index (.name "v") (.name "i")) (some .add) (.placeholder ⟨"n", none, none⟩)]
    let p : Procedure := [.loop "i" (.int 0) (.int 1) false
      [.loop "i" (.name "i") (.int 1) true body, .eval (.name "i")]]
    let sum (i : Expression) (n : Expression) : Expression :=
      .binary .add (.index (.name "v") i) n
    let code : Code := [.assign (.index (.name "v") (.int 0)) (sum (.int 0) (.int 7)),
      .assign (.index (.name "v") (.int 1)) (sum (.int 1) (.int 7)), .eval (.int 0)]
    p.unroll [("n", .int 7)] 3 = .ok code ∧
      List.Forall₂ (fun site e => Becomes site.1 site.2 e ∧ ∀ d ∈ e.parts, d.Free site.1)
        [([("i", 0), ("i", 0)], .index (.name "v") (.name "i")),
          ([("i", 0), ("i", 0)], sum (.name "i") (.placeholder ⟨"n", none, none⟩)),
          ([("i", 1), ("i", 0)], .index (.name "v") (.name "i")),
          ([("i", 1), ("i", 0)], sum (.name "i") (.placeholder ⟨"n", none, none⟩)),
          ([("i", 0)], .name "i")] code.expressions := by
  intro body p sum code
  have hcode : p.unroll [("n", .int 7)] 3 = .ok code := rfl
  exact ⟨hcode, expressions_of_unroll hcode⟩

end Procedure
end Hologram.Script
