import Hologram.Proofs.Number.Missing
import Hologram.Proofs.Outcome
import Hologram.Proofs.Script.DirectRun
import Mathlib.Tactic.SplitIfs

/-! Resolution keeps values. What takes the place of a placeholder or of a loop variable is worth in
every store what the placeholder or the loop variable is worth there. -/
namespace Hologram.Script
open Number

namespace Constant

theorem at?_of_item {name : String} {value found : Constant} {position : Int}
    (h : value.item name position = .ok found) : value.at? position = some found := by
  cases value with
  | sequence items =>
    simp only [item] at h
    split at h
    · cases h
      assumption
    · contradiction
  | mapping fields =>
    simp only [item] at h
    split at h
    · cases h
      assumption
    · contradiction
  | _ => contradiction

theorem named?_of_field {name key : String} {value found : Constant}
    (h : value.field name key = .ok found) : value.named? key = some found := by
  cases value with
  | mapping fields =>
    simp only [field] at h
    split at h
    · cases h
      assumption
    · contradiction
  | _ => contradiction

variable (functions : Functions) (store : Store)

/-- A constant as an expression is worth what the constant is worth. -/
theorem evaluate_toExpression {value : Constant} (h : value.isScalar = true) :
    value.toExpression.evaluate functions store = value.worth functions store := by
  cases value <;> first | rfl | contradiction

/-- A constant that is no number evaluates to the one double that is none. -/
theorem evaluate_of_isMissing {value : Constant} (h : value.isMissing = true) :
    value.toExpression.evaluate functions store = .ok (.number missing) := by
  cases value with
  | int n => cases (isNaN_ofInt n).symm.trans h
  | float x =>
    have hx : x.isNaN = true := by simpa [isMissing, toFloat?] using h
    rw [eq_missing_of_isNaN hx]
    rfl
  | indefinite => rfl
  | _ => contradiction

/-- Folding keeps the value, also where it writes a number that is none as an operand. -/
theorem evaluate_folded (first second : Constant) (result : Float) :
    (folded first second result).evaluate functions store = .ok (.number result) := by
  unfold folded
  split_ifs with hnan
  · rw [eq_missing_of_isNaN hnan]
    split
    · exact evaluate_of_isMissing functions store (List.find?_some ‹_›)
    · rfl
  · rfl

/-- An adjusted value that is no code is the result of the adjustment. -/
theorem adjust_cases {name : String} {value operand : Constant} {operator : BinaryOperator}
    {e : Expression} (hc : ∀ text, value ≠ code text)
    (h : value.adjust name operator operand = .ok e) :
    (∃ n, value.adjusted? operator operand = some (int n) ∧ e = .int n) ∨
    ∃ x, value.adjusted? operator operand = some (float x) ∧ e = folded value operand x := by
  unfold adjust at h
  split at h
  · exact absurd rfl (hc _)
  · dsimp only at h
    unfold adjusted?
    split at h
    · rename_i n hn
      cases h
      exact .inl ⟨n, by rw [show adjustedWhole? operator value operand = some n from hn], rfl⟩
    · rename_i hn
      split at h
      · rename_i x hx
        cases h
        refine .inr ⟨x, ?_, rfl⟩
        rw [show adjustedWhole? operator value operand = none from hn]
        exact congrArg (Option.map float) hx
      · contradiction

theorem adjustedWorth_of_adjusted? {value operand result : Constant} {operator : BinaryOperator}
    (hc : ∀ text, value ≠ code text) (h : value.adjusted? operator operand = some result) :
    value.adjustedWorth functions store operator operand = result.worth functions store := by
  unfold adjustedWorth
  split
  · exact absurd rfl (hc _)
  · rw [h]

/-- An adjusted constant as an expression is worth what it is worth adjusted at run time. -/
theorem evaluate_adjust {name : String} {value operand : Constant} {operator : BinaryOperator}
    {e : Expression} (h : value.adjust name operator operand = .ok e) :
    e.evaluate functions store = value.adjustedWorth functions store operator operand := by
  by_cases hc : ∃ text, value = code text
  · obtain ⟨text, rfl⟩ := hc
    cases h
    rfl
  · have hc : ∀ text, value ≠ code text := fun text ht => hc ⟨text, ht⟩
    rcases adjust_cases hc h with ⟨n, hn, rfl⟩ | ⟨x, hx, rfl⟩
    · rw [adjustedWorth_of_adjusted? functions store hc hn]
      rfl
    · rw [adjustedWorth_of_adjusted? functions store hc hx, evaluate_folded]
      rfl

/-- What is no number is no bound. -/
theorem wholeOf?_missing : wholeOf? missing = none := by
  decide +kernel

/-- The bound that a constant is as an expression is the constant as an integer. -/
theorem toInt?_of_boundOf {value : Constant} {variableName : String} {n : Int}
    (h : value.toExpression.boundOf variableName = .ok n) : value.toInt? = some n := by
  cases value with
  | int m =>
    cases h
    rfl
  | float x =>
    simp only [toExpression, Expression.boundOf] at h
    split at h
    · cases h
      assumption
    · contradiction
  | _ => contradiction

theorem not_boundOf_of_isMissing {value : Constant} (h : value.isMissing = true)
    (variableName : String) (n : Int) : value.toExpression.boundOf variableName ≠ .ok n := by
  intro hn
  have hint := toInt?_of_boundOf hn
  cases value with
  | int m => cases (isNaN_ofInt m).symm.trans h
  | float x =>
    have hx : x.isNaN = true := by simpa [isMissing, toFloat?] using h
    rw [eq_missing_of_isNaN hx] at hint
    exact absurd hint (by simp [toInt?, wholeOf?_missing])
  | _ => contradiction

/-- A folded result is a bound only as the double that it is. -/
theorem wholeOf?_of_folded {first second : Constant} {result : Float} {variableName : String}
    {n : Int} (h : (folded first second result).boundOf variableName = .ok n) :
    wholeOf? result = some n := by
  unfold folded at h
  split_ifs at h with hnan
  · split at h
    · exact absurd h (not_boundOf_of_isMissing (List.find?_some ‹_›) _ _)
    · contradiction
  · have hint : (float result).toInt? = some n := toInt?_of_boundOf h
    exact hint

theorem folded_ne_name (first second : Constant) (result : Float) (variableName : String) :
    folded first second result ≠ .name variableName := by
  unfold folded
  split_ifs
  · split
    · rename_i c _
      cases c <;> nofun
    · nofun
  · nofun

theorem adjust_ne_name {name : String} {value operand : Constant} {operator : BinaryOperator}
    {e : Expression} (h : value.adjust name operator operand = .ok e) (variableName : String) :
    e ≠ .name variableName := by
  by_cases hc : ∃ text, value = code text
  · obtain ⟨text, rfl⟩ := hc
    cases h
    nofun
  · rcases adjust_cases (fun text ht => hc ⟨text, ht⟩) h with ⟨n, -, rfl⟩ | ⟨x, -, rfl⟩
    · nofun
    · exact folded_ne_name value operand x variableName

theorem toInt?_of_adjust {name variableName : String} {value operand : Constant}
    {operator : BinaryOperator} {e : Expression} {n : Int}
    (h : value.adjust name operator operand = .ok e) (hn : e.boundOf variableName = .ok n) :
    (value.adjusted? operator operand).bind toInt? = some n := by
  by_cases hc : ∃ text, value = code text
  · obtain ⟨text, rfl⟩ := hc
    cases h
    contradiction
  · rcases adjust_cases (fun text ht => hc ⟨text, ht⟩) h with ⟨m, hm, rfl⟩ | ⟨x, hx, rfl⟩
    · cases hn
      rw [hm]
      rfl
    · rw [hx]
      exact wholeOf?_of_folded hn

end Constant

namespace Placeholder
open Constant

variable {bindings : Bindings} {scope : Scope} {p : Placeholder} {e : Expression}

theorem reach?_of_access {name : String} {value found : Constant} {accessor : Accessor}
    (h : access bindings scope name value accessor = .ok found) :
    accessor.reach? bindings scope value = some found := by
  cases accessor with
  | index position => exact at?_of_item h
  | field name => exact named?_of_field h
  | position variableName =>
    simp only [access, position?] at h
    cases hs : scope.get? variableName with
    | some place =>
      simp only [hs] at h
      simpa only [Accessor.reach?, hs] using at?_of_item h
    | none =>
      simp only [hs] at h
      split at h
      · rename_i place hplace
        simpa only [Accessor.reach?, hs, hplace, Option.bind_some] using at?_of_item h
      · contradiction

/-- Looking up, reaching in and adjusting, told apart. -/
theorem resolve_cases (h : p.resolve bindings scope = .ok e) :
    ∃ value, p.constant? bindings scope = some value ∧ value.isScalar = true ∧
      match p.adjustment with
      | none => e = value.toExpression
      | some (operator, operand) => value.adjust p.name operator operand = .ok e := by
  unfold resolve at h
  cases hb : base? bindings scope p.name with
  | none => simp [hb] at h
  | some base =>
    have hn : named? bindings scope p.name = some base := hb
    have hvalue : ∃ value, p.constant? bindings scope = some value ∧
        (if value.isScalar then match p.adjustment with
          | none => pure value.toExpression
          | some (operator, operand) => value.adjust p.name operator operand
        else .error (.notScalar p.name)) = Except.ok e := by
      simp only [hb, ok_bind] at h
      unfold constant?
      cases ha : p.accessor with
      | none =>
        rw [ha] at h
        exact ⟨base, hn, h⟩
      | some accessor =>
        rw [ha] at h
        obtain ⟨value, hvalue, h⟩ := bind_eq_ok.mp h
        refine ⟨value, ?_, h⟩
        dsimp only
        rw [hn]
        exact reach?_of_access hvalue
    obtain ⟨value, hvalue, h⟩ := hvalue
    split_ifs at h with hs
    refine ⟨value, hvalue, hs, ?_⟩
    split at h
    · cases h
      rfl
    · exact h

variable (functions : Functions) (store : Store)

/-- What takes the place of a placeholder is worth what the placeholder is worth. -/
theorem evaluate_resolve (h : p.resolve bindings scope = .ok e) :
    e.evaluate functions store = p.worth bindings scope functions store := by
  obtain ⟨value, hvalue, hscalar, h⟩ := resolve_cases h
  unfold worth
  rw [hvalue]
  cases ha : p.adjustment with
  | none =>
    rw [ha] at h
    rw [h]
    exact evaluate_toExpression functions store hscalar
  | some adjustment =>
    rw [ha] at h
    exact evaluate_adjust functions store h

/-- A placeholder that becomes a bound stands for that bound. -/
theorem bound?_of_resolve {variableName : String} {n : Int} (h : p.resolve bindings scope = .ok e)
    (hn : e.boundOf variableName = .ok n) : p.bound? bindings scope = some n := by
  obtain ⟨value, hvalue, hscalar, h⟩ := resolve_cases h
  unfold bound?
  rw [hvalue]
  cases ha : p.adjustment with
  | none =>
    rw [ha] at h
    rw [h] at hn
    exact toInt?_of_boundOf hn
  | some adjustment =>
    rw [ha] at h
    exact toInt?_of_adjust h hn

/-- No variable takes the place of a placeholder. -/
theorem resolve_ne_name (h : p.resolve bindings scope = .ok e) (variableName : String) :
    e ≠ .name variableName := by
  rintro rfl
  obtain ⟨value, -, -, h⟩ := resolve_cases h
  cases ha : p.adjustment with
  | none =>
    rw [ha] at h
    cases value <;> contradiction
  | some adjustment =>
    rw [ha] at h
    exact adjust_ne_name h variableName rfl

end Placeholder

namespace Expression

variable {bindings : Bindings} {scope : Scope} (functions : Functions) (store : Store)

/-- Only a variable that is no loop variable resolves to a variable. -/
theorem eq_name_of_resolve {e : Expression} {variableName : String}
    (h : e.resolve bindings scope = .ok (name variableName)) :
    e = name variableName ∧ scope.get? variableName = none := by
  cases e with
  | name other =>
    simp only [resolve] at h
    split at h
    · simp at h
    · cases h
      exact ⟨rfl, ‹_›⟩
  | placeholder p => exact absurd rfl (Placeholder.resolve_ne_name h variableName)
  | call | index | binary | unary | conditional | guarded =>
    simp only [resolve, bind_eq_ok, pure_eq_ok] at h
    simp at h
  | _ =>
    simp only [resolve] at h
    cases h

/-- A fallback of anything but a variable is never taken. -/
theorem meaning_coalesce {first : Expression} (h : ∀ x, first ≠ name x) (second : Expression) :
    (binary .coalesce first second).meaning bindings scope functions store =
      first.meaning bindings scope functions store := by
  cases first with
  | name x => exact absurd rfl (h x)
  | _ => simp only [meaning]

theorem evaluate_coalesce {first : Expression} (h : ∀ x, first ≠ name x) (second : Expression) :
    (binary .coalesce first second).evaluate functions store =
      first.evaluate functions store := by
  unfold evaluate
  cases first with
  | name x => exact absurd rfl (h x)
  | _ => simp only [evaluateWith]

mutual

/-- An expression without placeholders and loop variables is worth what the expression is worth
that it comes from. -/
theorem evaluate_of_resolve : ∀ (e : Expression) {r : Expression},
    e.resolve bindings scope = .ok r →
      r.evaluate functions store = e.meaning bindings scope functions store
  | int _, _, h | float _, _, h | indefinite, _, h | bool _, _, h | string _, _, h
  | raw _, _, h => by
    cases h
    rfl
  | name x, r, h => by
    simp only [resolve] at h
    cases hs : scope.get? x with
    | some value =>
      rw [hs] at h
      cases h
      simp only [meaning, hs]
      rfl
    | none =>
      rw [hs] at h
      cases h
      simp only [meaning, hs]
      rfl
  | placeholder p, r, h => by
    simp only [meaning]
    exact Placeholder.evaluate_resolve functions store h
  | call function arguments, r, h => by
    simp only [resolve, bind_eq_ok, pure_eq_ok] at h
    obtain ⟨resolved, ha, rfl⟩ := h
    simp only [evaluate, evaluateWith, meaning]
    rw [← evaluateAll_of_resolveAll arguments ha]
  | index target position, r, h => by
    simp only [resolve, bind_eq_ok, pure_eq_ok] at h
    obtain ⟨_, -, _, -, rfl⟩ := h
    simp only [evaluate, evaluateWith, meaning]
  | binary operator first second, r, h => by
    simp only [resolve, bind_eq_ok, pure_eq_ok] at h
    obtain ⟨a, ha, b, hb, rfl⟩ := h
    have iha := evaluate_of_resolve first ha
    have ihb := evaluate_of_resolve second hb
    cases operator with
    | coalesce =>
      by_cases hn : ∃ x, first = name x
      · obtain ⟨x, rfl⟩ := hn
        simp only [resolve] at ha
        simp only [meaning]
        cases hs : scope.get? x with
        | some value =>
          rw [hs] at ha
          cases ha
          rfl
        | none =>
          rw [hs] at ha
          cases ha
          simp only [evaluate, evaluateWith] at ihb ⊢
          cases store.get? x with
          | some value => rfl
          | none => exact ihb
      · have hn : ∀ x, first ≠ name x := fun x hx => hn ⟨x, hx⟩
        rw [meaning_coalesce functions store hn, ← iha]
        refine evaluate_coalesce functions store (fun x hx => ?_) b
        rw [hx] at ha
        exact hn x (eq_name_of_resolve ha).1
    | _ =>
      simp only [evaluate, evaluateWith, meaning] at iha ihb ⊢
      rw [iha, ihb]
  | unary operator operand, r, h => by
    simp only [resolve, bind_eq_ok, pure_eq_ok] at h
    obtain ⟨a, ha, rfl⟩ := h
    have iha := evaluate_of_resolve operand ha
    cases operator <;>
    · simp only [evaluate, evaluateWith, meaning] at iha ⊢
      rw [iha]
  | conditional condition satisfied unsatisfied, r, h => by
    simp only [resolve, bind_eq_ok, pure_eq_ok] at h
    obtain ⟨a, ha, b, hb, c, hc, rfl⟩ := h
    have iha := evaluate_of_resolve condition ha
    have ihb := evaluate_of_resolve satisfied hb
    have ihc := evaluate_of_resolve unsatisfied hc
    simp only [evaluate, evaluateWith, meaning] at iha ihb ihc ⊢
    rw [iha, ihb, ihc]
  | guarded condition satisfied, r, h => by
    simp only [resolve, bind_eq_ok, pure_eq_ok] at h
    obtain ⟨a, ha, b, hb, rfl⟩ := h
    have iha := evaluate_of_resolve condition ha
    have ihb := evaluate_of_resolve satisfied hb
    simp only [evaluate, evaluateWith, meaning] at iha ihb ⊢
    rw [iha, ihb]

theorem evaluateAll_of_resolveAll : ∀ (es : List Expression) {rs : List Expression},
    resolveAll bindings scope es = .ok rs →
      evaluateAllWith functions store (evaluateText functions store) rs =
        meanings bindings scope functions store es
  | [], _, h => by
    cases h
    rfl
  | e :: es, rs, h => by
    simp only [resolveAll, bind_eq_ok, pure_eq_ok] at h
    obtain ⟨r, he, rest, hes, rfl⟩ := h
    have ihe := evaluate_of_resolve e he
    have ihes := evaluateAll_of_resolveAll es hes
    simp only [evaluate] at ihe
    simp only [evaluateAllWith, meanings]
    rw [ihe, ihes]

end

end Expression

end Hologram.Script
