import Hologram.Proofs.Script.CodeEmission
import Hologram.Proofs.Script.Expansion
import Hologram.Proofs.Script.Resolution
import Hologram.Proofs.Script.StatementParsing

/-! The names in code that comes from a text are names that a text can spell. -/
namespace Hologram.Script
namespace Expression

/-- Whether the name that an expression begins with, if it has one, is read as one name. -/
def Named : Expression → Prop
  | name x | call x _ => Lexer.isName x = true
  | _ => True

theorem named_of_native {e : Expression} (h : e.Native) : e.Named := by
  cases e with
  | name | call => exact h
  | _ => trivial

/-- Whether an expression begins with neither a name nor a placeholder. -/
def isNameless : Expression → Bool
  | name _ | call _ _ | placeholder _ => false
  | _ => true

theorem named_of_isNameless {e : Expression} (h : e.isNameless = true) : e.Named := by
  cases e <;> trivial

end Expression

theorem SpelledIn.native {ts : List Token} {e : Expression} (h : SpelledIn ts e)
    (hts : ∀ t ∈ ts, t.Native) : ∀ d ∈ e.parts, d.Native := by
  rcases h with rfl | ⟨level, us, hus, he⟩
  · exact List.forall_mem_singleton.mpr ⟨by decide, by decide⟩
  · exact he.native fun t ht => hts t (hus.subset ht)

namespace Constant
open Expression

theorem isNameless_toExpression (c : Constant) :
    ∀ d ∈ c.toExpression.parts, d.isNameless = true := by
  cases c <;> simp [toExpression, parts, isNameless]

theorem isNameless_folded (a b : Constant) (x : Float) :
    ∀ d ∈ (folded a b x).parts, d.isNameless = true := by
  unfold folded
  split_ifs
  · split
    · exact isNameless_toExpression _
    · simp [parts, isNameless]
  · simp [parts, isNameless]

theorem isNameless_of_adjust {name : String} {value operand : Constant} {op : BinaryOperator}
    {e : Expression} (h : value.adjust name op operand = .ok e) :
    ∀ d ∈ e.parts, d.isNameless = true := by
  unfold adjust at h
  split at h
  · cases h
    simpa [parts, isNameless] using isNameless_toExpression operand
  · dsimp only at h
    split at h
    · cases h
      simp [parts, isNameless]
    · split at h
      · cases h
        exact isNameless_folded _ _ _
      · contradiction

end Constant

/-- What takes the place of a placeholder has no name in it. -/
theorem Placeholder.isNameless_of_resolve {bindings : Bindings} {scope : Scope} {p : Placeholder}
    {e : Expression} (h : p.resolve bindings scope = .ok e) :
    ∀ d ∈ e.parts, d.isNameless = true := by
  obtain ⟨value, -, -, h⟩ := resolve_cases h
  split at h
  · rw [h]
    exact value.isNameless_toExpression
  · exact Constant.isNameless_of_adjust h

namespace Expression

variable {bindings : Bindings} {scope : Scope}

mutual

/-- Resolving brings in no names. -/
theorem named_of_resolve {e r : Expression} (h : e.resolve bindings scope = .ok r)
    (he : ∀ d ∈ e.parts, d.Named) : ∀ d ∈ r.parts, d.Named := by
  cases e with
  | name x =>
    simp only [resolve] at h
    split at h <;> cases h
    · simp [parts, Named]
    · exact he
  | placeholder p =>
    rw [resolve] at h
    exact fun d hd => named_of_isNameless (Placeholder.isNameless_of_resolve h d hd)
  | call f arguments =>
    rw [resolve] at h
    obtain ⟨es, hes, h⟩ := bind_eq_ok.mp h
    cases pure_eq_ok.mp h
    obtain ⟨hf, harguments⟩ := List.forall_mem_cons.mp he
    exact List.forall_mem_cons.mpr ⟨hf, named_of_resolveAll hes harguments⟩
  | index a b | binary op a b | guarded a b =>
    rw [resolve] at h
    obtain ⟨a', ha, h⟩ := bind_eq_ok.mp h
    obtain ⟨b', hb, h⟩ := bind_eq_ok.mp h
    cases pure_eq_ok.mp h
    simp only [parts, List.forall_mem_cons, List.forall_mem_append] at he ⊢
    exact ⟨trivial, named_of_resolve ha he.2.1, named_of_resolve hb he.2.2⟩
  | unary op a =>
    rw [resolve] at h
    obtain ⟨a', ha, h⟩ := bind_eq_ok.mp h
    cases pure_eq_ok.mp h
    simp only [parts, List.forall_mem_cons] at he ⊢
    exact ⟨trivial, named_of_resolve ha he.2⟩
  | conditional a b c =>
    rw [resolve] at h
    obtain ⟨a', ha, h⟩ := bind_eq_ok.mp h
    obtain ⟨b', hb, h⟩ := bind_eq_ok.mp h
    obtain ⟨c', hc, h⟩ := bind_eq_ok.mp h
    cases pure_eq_ok.mp h
    simp only [parts, List.forall_mem_cons, List.forall_mem_append] at he ⊢
    exact ⟨trivial, ⟨named_of_resolve ha he.2.1.1, named_of_resolve hb he.2.1.2⟩,
      named_of_resolve hc he.2.2⟩
  | _ =>
    simp only [resolve] at h
    cases h
    exact he

theorem named_of_resolveAll {es rs : List Expression} (h : resolveAll bindings scope es = .ok rs)
    (hes : ∀ d ∈ partsOfAll es, d.Named) : ∀ d ∈ partsOfAll rs, d.Named := by
  cases es with
  | nil =>
    rw [resolveAll] at h
    cases h
    exact hes
  | cons e es =>
    rw [resolveAll] at h
    obtain ⟨r, hr, h⟩ := bind_eq_ok.mp h
    obtain ⟨rs, hrs, h⟩ := bind_eq_ok.mp h
    cases pure_eq_ok.mp h
    simp only [partsOfAll, List.forall_mem_append] at hes ⊢
    exact ⟨named_of_resolve hr hes.1, named_of_resolveAll hrs hes.2⟩

end

end Expression
namespace Code

def Named (code : Code) : Prop :=
  ∀ e ∈ code.expressions, ∀ d ∈ e.parts, d.Named

theorem expressions_append (first second : Code) :
    expressions (first ++ second) = expressions first ++ expressions second := by
  induction first with
  | nil => rfl
  | cons i rest ih => rw [List.cons_append, expressions, expressions, ih, List.append_assoc]

theorem expressions_singleton (i : Instruction Expression) :
    expressions [i] = instructionExpressions i := by
  rw [expressions, expressions, List.append_nil]

theorem Named.append {first second : Code} (h : first.Named) (h' : second.Named) :
    (first ++ second).Named := by
  unfold Named at h h' ⊢
  rw [expressions_append]
  exact List.forall_mem_append.mpr ⟨h, h'⟩

theorem named_singleton {i : Instruction Expression}
    (h : ∀ e ∈ instructionExpressions i, ∀ d ∈ e.parts, d.Named) : Named [i] := by
  unfold Named
  rwa [expressions_singleton]

theorem named_flatten {values : List Int} {parts : List Code}
    (h : List.Forall₂ (fun _ part => Code.Named part) values parts) : Named parts.flatten := by
  induction h with
  | nil => nofun
  | cons hpart _ ih => exact hpart.append ih

end Code

namespace Procedure
open Expression

variable {bindings : Bindings}

mutual

/-- Unrolling brings in no names. -/
theorem named_of_unrollStatement : ∀ (s : Statement) {scope : Scope} {left left' : Nat}
    {code : Code}, (unrollStatement bindings scope s).run left = .ok (code, left') →
      (∀ e ∈ statementExpressions s, ∀ d ∈ e.parts, d.Named) → code.Named
  | .assign target operator value, scope, left, left', code, h, hs => by
    cases expands_of_run h with
    | assign _ htarget hvalue =>
      have htarget := named_of_resolve htarget (hs target (.head _))
      have hvalue := named_of_resolve hvalue (hs value (.tail _ (.head _)))
      refine Code.named_singleton (List.forall_mem_cons.mpr ⟨htarget, ?_⟩)
      cases operator with
      | none => exact List.forall_mem_singleton.mpr hvalue
      | some operator =>
        simp only [List.forall_mem_singleton, parts, List.forall_mem_cons, List.forall_mem_append]
        exact ⟨trivial, htarget, hvalue⟩
  | .eval e, scope, left, left', code, h, hs => by
    cases expands_of_run h with
    | eval hr =>
      have he := named_of_resolve hr (hs e (.head _))
      exact Code.named_singleton (List.forall_mem_singleton.mpr he)
  | .returns none, scope, left, left', code, h, hs => by
    cases expands_of_run h with
    | returnsNothing => nofun
  | .returns (some value), scope, left, left', code, h, hs => by
    cases expands_of_run h with
    | returns hr =>
      have hvalue := named_of_resolve hr (hs value (.head _))
      exact Code.named_singleton (List.forall_mem_singleton.mpr hvalue)
  | .guarded condition satisfied, scope, left, left', code, h, hs => by
    cases expands_of_run h with
    | guarded hcondition hsatisfied =>
      have hcondition := named_of_resolve hcondition (hs condition (.head _))
      have hsatisfied := named_of_unrollBlock satisfied hsatisfied fun e he => hs e (.tail _ he)
      exact Code.named_singleton (List.forall_mem_cons.mpr
        ⟨hcondition, List.forall_mem_append.mpr ⟨hsatisfied, nofun⟩⟩)
  | .branch condition satisfied unsatisfied, scope, left, left', code, h, hs => by
    cases expands_of_run h with
    | branch hcondition hsatisfied hunsatisfied =>
      simp only [statementExpressions, List.forall_mem_cons, List.forall_mem_append] at hs
      have hcondition := named_of_resolve hcondition hs.1
      have hsatisfied := named_of_unrollBlock satisfied hsatisfied hs.2.1
      have hunsatisfied := named_of_unrollBlock unsatisfied hunsatisfied hs.2.2
      exact Code.named_singleton (List.forall_mem_cons.mpr
        ⟨hcondition, List.forall_mem_append.mpr ⟨hsatisfied, hunsatisfied⟩⟩)
  | .loop v first last inclusive body, scope, left, left', code, h, hs => by
    cases expands_of_run h with
    | loop _ _ _ _ _ hparts =>
      refine Code.named_flatten ((forall₂_of_run_mapM_eq_ok hparts).imp ?_)
      rintro i part ⟨_, _, hpart⟩
      exact named_of_unrollBlock body hpart fun e he => hs e (.tail _ (.tail _ he))

theorem named_of_unrollBlock : ∀ (ss : Procedure) {scope : Scope} {left left' : Nat}
    {code : Code}, (unrollBlock bindings scope ss).run left = .ok (code, left') →
      (∀ e ∈ expressions ss, ∀ d ∈ e.parts, d.Named) → code.Named
  | [], scope, left, left', code, h, hs => by
    rw [unrollBlock_nil h]
    nofun
  | s :: rest, scope, left, left', code, h, hs => by
    obtain ⟨first, _, more, rfl, hfirst, hmore⟩ := unrollBlock_cons h
    rw [expressions, List.forall_mem_append] at hs
    exact (named_of_unrollStatement s hfirst hs.1).append (named_of_unrollBlock rest hmore hs.2)

end

/-- All names in the code of a procedure that a text spells are names that a text can spell. -/
theorem named_of_unroll {text : String} {p : Procedure} {limit : Nat} {code : Code}
    (h : ofText text = .ok p) (hcode : p.unroll bindings limit = .ok code) : code.Named := by
  obtain ⟨ts, hts, hspelled⟩ := spelledIn_of_ofText h
  obtain ⟨⟨_, left⟩, hblock, hcode⟩ := bind_eq_ok.mp hcode
  cases pure_eq_ok.mp hcode
  refine named_of_unrollBlock p hblock fun e he d hd => ?_
  exact Expression.named_of_native ((hspelled e he).native hts.native d hd)

end Procedure
end Hologram.Script
