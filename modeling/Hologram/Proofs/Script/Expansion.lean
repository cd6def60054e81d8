import Hologram.Proofs.Script.Iterations

/-! What unrolling leaves of each kind of statement. All that is shown of unrolled code is shown
along these cases; nothing else looks into the computation that unrolls a statement. -/
namespace Hologram.Script.Procedure

open Number.Width (bits64)

/-- The code that a statement expands to inside the loops of `scope`, and the allowance before and
after. Expressions are resolved, blocks are unrolled one after the other, and a loop pays for its
iterations before it unrolls the first. -/
inductive Expands (bindings : Bindings) (scope : Scope) : Nat → Statement → Code → Nat → Prop
  | assign {left : Nat} {target value t v : Expression} (operator : Option BinaryOperator)
      (htarget : target.resolve bindings scope = .ok t)
      (hvalue : value.resolve bindings scope = .ok v) :
      Expands bindings scope left (.assign target operator value)
        [.assign t (match operator with
          | some operator => .binary operator t v
          | none => v)] left
  | eval {left : Nat} {e r : Expression} (h : e.resolve bindings scope = .ok r) :
      Expands bindings scope left (.eval e) [.eval r] left
  | returnsNothing {left : Nat} :
      Expands bindings scope left (.returns none) [.returns none] left
  | returns {left : Nat} {value r : Expression} (h : value.resolve bindings scope = .ok r) :
      Expands bindings scope left (.returns (some value)) [.returns (some r)] left
  | guarded {left left' : Nat} {condition c : Expression} {satisfied : List Statement} {a : Code}
      (hcondition : condition.resolve bindings scope = .ok c)
      (hsatisfied : (unrollBlock bindings scope satisfied).run left = .ok (a, left')) :
      Expands bindings scope left (.guarded condition satisfied) [.branch c a []] left'
  | branch {left between left' : Nat} {condition c : Expression}
      {satisfied unsatisfied : List Statement} {a b : Code}
      (hcondition : condition.resolve bindings scope = .ok c)
      (hsatisfied : (unrollBlock bindings scope satisfied).run left = .ok (a, between))
      (hunsatisfied : (unrollBlock bindings scope unsatisfied).run between = .ok (b, left')) :
      Expands bindings scope left (.branch condition satisfied unsatisfied) [.branch c a b] left'
  | loop {left paid left' : Nat} {v : String} {first last first' last' : Expression}
      {low high : Int} {inclusive : Bool} {body : List Statement} {parts : List Code}
      (hfirst : first.resolve bindings scope = .ok first') (hlow : first'.boundOf v = .ok low)
      (hlast : last.resolve bindings scope = .ok last') (hhigh : last'.boundOf v = .ok high)
      (hpaid : (spend v (min (loopValues low high inclusive).length bits64.greatest.toNat)).run
        left = .ok ((), paid))
      (hparts : ((loopValues low high inclusive).mapM fun i =>
        unrollBlock bindings ((v, i) :: scope) body).run paid = .ok (parts, left')) :
      Expands bindings scope left (.loop v first last inclusive body) parts.flatten left'

variable {bindings : Bindings} {scope : Scope} {left left' : Nat} {code : Code}

/-- A statement that unrolls expands to its code. -/
theorem expands_of_run {s : Statement}
    (h : (unrollStatement bindings scope s).run left = .ok (code, left')) :
    Expands bindings scope left s code left' := by
  match s with
  | .assign target operator value =>
    simp only [unrollStatement] at h
    obtain ⟨t, htarget, h⟩ := run_lift_bind_eq_ok.mp h
    obtain ⟨v, hvalue, h⟩ := run_lift_bind_eq_ok.mp h
    obtain ⟨rfl, rfl⟩ := run_pure_eq_ok.mp h
    exact .assign operator htarget hvalue
  | .eval e =>
    simp only [unrollStatement] at h
    obtain ⟨r, hr, h⟩ := run_lift_bind_eq_ok.mp h
    obtain ⟨rfl, rfl⟩ := run_pure_eq_ok.mp h
    exact .eval hr
  | .returns none =>
    simp only [unrollStatement] at h
    obtain ⟨rfl, rfl⟩ := run_pure_eq_ok.mp h
    exact .returnsNothing
  | .returns (some value) =>
    simp only [unrollStatement] at h
    obtain ⟨r, hr, h⟩ := run_lift_bind_eq_ok.mp h
    obtain ⟨rfl, rfl⟩ := run_pure_eq_ok.mp h
    exact .returns hr
  | .guarded condition satisfied =>
    simp only [unrollStatement] at h
    obtain ⟨c, hcondition, h⟩ := run_lift_bind_eq_ok.mp h
    obtain ⟨a, _, hsatisfied, h⟩ := run_bind_eq_ok.mp h
    obtain ⟨rfl, rfl⟩ := run_pure_eq_ok.mp h
    exact .guarded hcondition hsatisfied
  | .branch condition satisfied unsatisfied =>
    simp only [unrollStatement] at h
    obtain ⟨c, hcondition, h⟩ := run_lift_bind_eq_ok.mp h
    obtain ⟨a, between, hsatisfied, h⟩ := run_bind_eq_ok.mp h
    obtain ⟨b, _, hunsatisfied, h⟩ := run_bind_eq_ok.mp h
    obtain ⟨rfl, rfl⟩ := run_pure_eq_ok.mp h
    exact .branch hcondition hsatisfied hunsatisfied
  | .loop v first last inclusive body =>
    -- the bounds first, so that the rest can be read as a run over the integers of the loop
    have hbounds := h
    simp only [unrollStatement] at hbounds
    obtain ⟨first', hfirst, hbounds⟩ := run_lift_bind_eq_ok.mp hbounds
    obtain ⟨low, hlow, hbounds⟩ := run_lift_bind_eq_ok.mp hbounds
    obtain ⟨last', hlast, hbounds⟩ := run_lift_bind_eq_ok.mp hbounds
    obtain ⟨high, hhigh, -⟩ := run_lift_bind_eq_ok.mp hbounds
    rw [unrollStatement_loop hfirst hlow hlast hhigh, map_eq_pure_bind] at h
    obtain ⟨_, paid, hpaid, h⟩ := run_bind_eq_ok.mp h
    obtain ⟨parts, _, hparts, h⟩ := run_bind_eq_ok.mp h
    obtain ⟨rfl, rfl⟩ := run_pure_eq_ok.mp h
    exact .loop hfirst hlow hlast hhigh hpaid hparts

theorem unrollBlock_nil (h : (unrollBlock bindings scope []).run left = .ok (code, left')) :
    code = [] := by
  rw [unrollBlock] at h
  exact (run_pure_eq_ok.mp h).1

theorem unrollBlock_cons {s : Statement} {rest : List Statement}
    (h : (unrollBlock bindings scope (s :: rest)).run left = .ok (code, left')) :
    ∃ first between more, code = first ++ more ∧
      (unrollStatement bindings scope s).run left = .ok (first, between) ∧
      (unrollBlock bindings scope rest).run between = .ok (more, left') := by
  rw [unrollBlock] at h
  obtain ⟨first, between, hfirst, h⟩ := run_bind_eq_ok.mp h
  obtain ⟨more, _, hmore, h⟩ := run_bind_eq_ok.mp h
  obtain ⟨rfl, rfl⟩ := run_pure_eq_ok.mp h
  exact ⟨first, between, more, rfl, hfirst, hmore⟩

end Hologram.Script.Procedure
