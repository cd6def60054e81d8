import Mathlib.Algebra.BigOperators.Group.List.Basic
import Hologram.Proofs.Script.Iterations
import Hologram.Proofs.Script.Unrolling

/-! How many iterations a procedure takes. All loops share one allowance and pay before their
bodies are unrolled, yet what a procedure needs does not depend on how it is paid: there is a number
of iterations below which unrolling fails and from which on it always gives the same code. The
code is never longer than that number of copies of the procedure. -/
namespace Hologram.Script

open Number.Width (bits64)

namespace Code

mutual

/-- How many instructions an instruction holds, itself and those of its branches. -/
def instructionSize : Instruction Expression → Nat
  | .branch _ satisfied unsatisfied => 1 + size satisfied + size unsatisfied
  | _ => 1

/-- How many instructions code holds, through all branches. -/
def size : List (Instruction Expression) → Nat
  | [] => 0
  | i :: rest => instructionSize i + size rest

end

theorem size_append (first second : Code) : size (first ++ second) = size first + size second := by
  induction first with
  | nil => simp [size]
  | cons i rest ih => rw [List.cons_append, size, size, ih, Nat.add_assoc]

theorem size_singleton (i : Instruction Expression) : size [i] = instructionSize i := by
  rw [size, size, Nat.add_zero]

end Code

namespace Procedure

mutual

/-- How many statements a statement holds, itself and those of its branches and its body. -/
def statementSize : Statement → Nat
  | .guarded _ satisfied => 1 + size satisfied
  | .branch _ satisfied unsatisfied => 1 + size satisfied + size unsatisfied
  | .loop _ _ _ _ body => 1 + size body
  | _ => 1

/-- How many statements a procedure holds at any depth. -/
def size : List Statement → Nat
  | [] => 0
  | s :: rest => statementSize s + size rest

end

variable (bindings : Bindings)

mutual

/-- How often bodies of loops are instantiated for a statement inside the loops of `scope`. A loop
instantiates its body once for each of its integers, and the loops inside once more each time. -/
def statementInstantiations (scope : Scope) : Statement → Nat
  | .guarded _ satisfied => instantiations scope satisfied
  | .branch _ satisfied unsatisfied =>
    instantiations scope satisfied + instantiations scope unsatisfied
  | .loop v first last inclusive body =>
    match first.bound? bindings scope, last.bound? bindings scope with
    | some low, some high =>
      ((loopValues low high inclusive).map fun i => 1 + instantiations ((v, i) :: scope) body).sum
    | _, _ => 0
  | _ => 0

/-- How often bodies of loops are instantiated for several statements inside the loops of
`scope`. -/
def instantiations (scope : Scope) : List Statement → Nat
  | [] => 0
  | s :: rest => statementInstantiations scope s + instantiations scope rest

end

variable {bindings} {α β : Type}

/-- A computation takes `n` iterations: with as many left it gives its result and uses them up, and
with fewer it fails for want of them. An allowance is less than the greatest integer of 64 bits. -/
structure Takes (x : Unroll α) (a : α) (n : Nat) : Prop where
  enough : ∀ left : Nat, (left : Int) < bits64.greatest → n ≤ left →
    x.run left = .ok (a, left - n)
  short : ∀ left : Nat, (left : Int) < bits64.greatest → left < n → ∃ v count rest,
    x.run left = .error (.unsupportedLoop (.tooLong v count rest))

theorem takes_pure (a : α) : Takes (pure a : Unroll α) a 0 :=
  ⟨fun _ _ _ => rfl, fun left _ h => absurd h left.not_lt_zero⟩

namespace Takes

variable {x : Unroll α} {a : α} {m n : Nat}

theorem bind {f : α → Unroll β} {b : β} (hx : Takes x a m) (hf : Takes (f a) b n) :
    Takes (x >>= f) b (m + n) := by
  constructor
  · intro left hleft hn
    rw [StateT.run_bind, hx.enough left hleft (by omega), ok_bind,
      hf.enough (left - m) (by omega) (by omega), Nat.sub_sub]
  · intro left hleft hn
    rw [StateT.run_bind]
    by_cases hm : left < m
    · obtain ⟨v, count, rest, h⟩ := hx.short left hleft hm
      exact ⟨v, count, rest, by rw [h, error_bind]⟩
    · rw [hx.enough left hleft (by omega), ok_bind]
      exact hf.short (left - m) (by omega) (by omega)

theorem map {f : α → β} (hx : Takes x a n) : Takes (f <$> x) (f a) n := by
  rw [map_eq_pure_bind]
  exact hx.bind (f := fun a => pure (f a)) (takes_pure (f a))

/-- A success with some allowance is the result, and the allowance was enough. -/
theorem of_run {b : α} {left left' : Nat} (hx : Takes x a n)
    (hleft : (left : Int) < bits64.greatest) (h : x.run left = .ok (b, left')) :
    b = a ∧ left' = left - n ∧ n ≤ left := by
  by_cases hn : n ≤ left
  · rw [hx.enough left hleft hn] at h
    cases h
    exact ⟨rfl, rfl, hn⟩
  · obtain ⟨v, count, rest, hfail⟩ := hx.short left hleft (by omega)
    rw [hfail] at h
    cases h

end Takes

theorem takes_spend (v : String) (n : Nat) :
    Takes (spend v (min n bits64.greatest.toNat)) () n := by
  constructor
  · intro left hleft hn
    rw [run_spend (by omega), Nat.min_eq_left (by omega)]
  · intro left hleft hn
    refine ⟨v, min n bits64.greatest.toNat, left, ?_⟩
    have hshort : left < min n bits64.greatest.toNat := by omega
    change (if left < _ then _ else _ : Unroll PUnit).run left = _
    rw [if_pos hshort]
    rfl

/-- A computation unrolls `size` statements: it takes `n` iterations and gives code that is no
longer than as many copies of the statements, or than the statements where it takes none. -/
def Unrolls (x : Unroll Code) (code : Code) (n size : Nat) : Prop :=
  Takes x code n ∧ Code.size code ≤ size * max 1 n

theorem mul_max_le {m n k : Nat} (size : Nat) (h : m + k = n) :
    size * max 1 m ≤ size * max 1 n :=
  Nat.mul_le_mul_left size (by omega)

namespace Unrolls

variable {x y : Unroll Code} {first second : Code} {m n s t : Nat}

theorem append (hx : Unrolls x first m s) (hy : Unrolls y second n t) :
    Unrolls (do return (← x) ++ (← y)) (first ++ second) (m + n) (s + t) := by
  have hfirst := hx.2.trans (mul_max_le s (Eq.refl (m + n)))
  have hsecond := hy.2.trans (mul_max_le t (Nat.add_comm n m))
  refine ⟨hx.1.bind (f := fun a => do return a ++ (← y)) ?_, ?_⟩
  · exact hy.1.map (f := fun b => first ++ b)
  · rw [Code.size_append, Nat.add_mul]
    exact Nat.add_le_add hfirst hsecond

/-- A branch unrolls when its arms do. The arms pay one after the other. -/
theorem branch (condition : Expression) (hx : Unrolls x first m s) (hy : Unrolls y second n t) :
    Unrolls (do return [.branch condition (← x) (← y)]) [.branch condition first second] (m + n)
      (1 + s + t) := by
  have hfirst := hx.2.trans (mul_max_le s (Eq.refl (m + n)))
  have hsecond := hy.2.trans (mul_max_le t (Nat.add_comm n m))
  refine ⟨hx.1.bind (f := fun a => do return [Instruction.branch condition a (← y)]) ?_, ?_⟩
  · exact hy.1.map (f := fun b => [Instruction.branch condition first b])
  · rw [Code.size_singleton, Code.instructionSize, Nat.add_mul, Nat.add_mul, Nat.one_mul]
    have : 1 ≤ max 1 (m + n) := Nat.le_max_left 1 _
    omega

end Unrolls

theorem unrolls_singleton {i : Instruction Expression} (hi : Code.instructionSize i = 1) :
    Unrolls (pure [i]) [i] 0 1 :=
  ⟨takes_pure [i], by rw [Code.size_singleton, hi]; decide⟩

/-- Bodies that unroll, one for each integer of a loop, unroll together with it when the loop has
paid for them. -/
theorem unrolls_loop {body : Int → Unroll Code} {cost : Int → Nat} {size : Nat} {values : List Int}
    (hbody : ∀ i ∈ values, ∀ {left left' : Nat} {code : Code}, (left : Int) < bits64.greatest →
      (body i).run left = .ok (code, left') → Unrolls (body i) code (cost i) size)
    {left left' : Nat} {parts : List Code} (hleft : (left : Int) < bits64.greatest)
    (h : (values.mapM body).run left = .ok (parts, left')) :
    Takes (values.mapM body) parts (values.map cost).sum ∧
      Code.size parts.flatten ≤ size * (values.length + (values.map cost).sum) := by
  induction values generalizing left left' parts with
  | nil =>
    rw [List.mapM_nil, run_pure_eq_ok] at h
    rw [h.1]
    exact ⟨takes_pure [], Nat.zero_le _⟩
  | cons i rest ih =>
    rw [List.mapM_cons] at h
    obtain ⟨code, between, hcode, h⟩ := run_bind_eq_ok.mp h
    obtain ⟨more, last, hmore, h⟩ := run_bind_eq_ok.mp h
    rw [(run_pure_eq_ok.mp h).1, List.mapM_cons]
    obtain ⟨hone, hsize⟩ := hbody i (.head _) hleft hcode
    obtain ⟨-, hbetween, -⟩ := hone.of_run hleft hcode
    obtain ⟨hrest, hmoreSize⟩ :=
      ih (fun j hj => hbody j (.tail _ hj)) (by omega) hmore
    have hle : size * max 1 (cost i) ≤ size * (1 + cost i) := Nat.mul_le_mul_left size (by omega)
    refine ⟨hone.bind (f := fun a => do return a :: (← rest.mapM body)) ?_, ?_⟩
    · exact hrest.map (f := fun b => code :: b)
    · rw [List.flatten_cons, Code.size_append, List.length_cons, List.map_cons, List.sum_cons]
      calc Code.size code + Code.size more.flatten
          ≤ size * (1 + cost i) + size * (rest.length + (rest.map cost).sum) :=
            Nat.add_le_add (hsize.trans hle) hmoreSize
        _ = size * (rest.length + 1 + (cost i + (rest.map cost).sum)) := by ring

mutual

/-- A statement that unrolls with some allowance takes as many iterations as it instantiates
bodies. -/
theorem unrolls_of_unrollStatement : ∀ (s : Statement) {scope : Scope} {left left' : Nat}
    {code : Code}, (left : Int) < bits64.greatest →
      (unrollStatement bindings scope s).run left = .ok (code, left') →
        Unrolls (unrollStatement bindings scope s) code (statementInstantiations bindings scope s)
          (statementSize s)
  | .assign target operator value, scope, left, left', code => fun hleft h => by
    cases expands_of_run h with
    | assign _ htarget hvalue =>
      rw [unrollStatement, htarget, lift_ok_bind, hvalue, lift_ok_bind]
      exact unrolls_singleton rfl
  | .eval e, scope, left, left', code => fun hleft h => by
    cases expands_of_run h with
    | eval hr =>
      rw [unrollStatement, hr, lift_ok_bind]
      exact unrolls_singleton rfl
  | .returns none, scope, left, left', code => fun hleft h => by
    cases expands_of_run h with
    | returnsNothing =>
      rw [unrollStatement]
      exact unrolls_singleton rfl
  | .returns (some value), scope, left, left', code => fun hleft h => by
    cases expands_of_run h with
    | returns hr =>
      rw [unrollStatement, hr, lift_ok_bind]
      exact unrolls_singleton rfl
  | .guarded condition satisfied, scope, left, left', code => fun hleft h => by
    cases expands_of_run h with
    | guarded hcondition hsatisfied =>
      rw [unrollStatement, hcondition, lift_ok_bind]
      have hnone : Unrolls (pure []) [] 0 0 := ⟨takes_pure [], Nat.zero_le _⟩
      exact (unrolls_of_unrollBlock satisfied hleft hsatisfied).branch _ hnone
  | .branch condition satisfied unsatisfied, scope, left, left', code => fun hleft h => by
    cases expands_of_run h with
    | branch hcondition hsatisfied hunsatisfied =>
      rw [unrollStatement, hcondition, lift_ok_bind]
      have hfirst := unrolls_of_unrollBlock satisfied hleft hsatisfied
      obtain ⟨-, hbetween, -⟩ := hfirst.1.of_run hleft hsatisfied
      exact hfirst.branch _ (unrolls_of_unrollBlock unsatisfied (by omega) hunsatisfied)
  | .loop v first last inclusive body, scope, left, left', code => fun hleft h => by
    cases expands_of_run h with
    | loop hfirst hlow hlast hhigh hpaid hparts =>
      rw [unrollStatement_loop hfirst hlow hlast hhigh, statementInstantiations,
        bound?_of_resolve hfirst hlow, bound?_of_resolve hlast hhigh, statementSize]
      obtain ⟨-, hbetween, -⟩ := (takes_spend v _).of_run hleft hpaid
      obtain ⟨htakes, hsize⟩ := unrolls_loop
        (fun i _ left left' code hleft hcode => unrolls_of_unrollBlock body hleft hcode)
        (by omega) hparts
      dsimp only
      rw [List.sum_map_add, List.map_const', List.sum_replicate, smul_eq_mul, mul_one]
      refine ⟨(takes_spend v _).bind (htakes.map (f := List.flatten)), hsize.trans ?_⟩
      exact Nat.mul_le_mul (by omega) (le_max_right 1 _)

/-- Several statements that unroll with some allowance take as many iterations as they instantiate
bodies. -/
theorem unrolls_of_unrollBlock : ∀ (ss : List Statement) {scope : Scope} {left left' : Nat}
    {code : Code}, (left : Int) < bits64.greatest →
      (unrollBlock bindings scope ss).run left = .ok (code, left') →
        Unrolls (unrollBlock bindings scope ss) code (instantiations bindings scope ss) (size ss)
  | [], scope, left, left', code => fun hleft h => by
    rw [unrollBlock_nil h, unrollBlock]
    exact ⟨takes_pure [], Nat.zero_le _⟩
  | s :: rest, scope, left, left', code => fun hleft h => by
    obtain ⟨first, between, more, rfl, hrun, hmore⟩ := unrollBlock_cons h
    have hfirst := unrolls_of_unrollStatement s hleft hrun
    obtain ⟨-, hbetween, -⟩ := hfirst.1.of_run hleft hrun
    rw [unrollBlock]
    exact hfirst.append (unrolls_of_unrollBlock rest (by omega) hmore)

end

/-- A procedure that unrolls under some limit unrolls under exactly the limits that are no less
than the number of times it instantiates bodies of loops, always to the same code; under any other
limit a loop is too long. The code has at most that many instructions for each statement, or one
where there is no iteration. -/
theorem unroll_iff_instantiations {limit : Nat} {procedure : Procedure} {code : Code}
    (h : procedure.unroll bindings limit = .ok code) (hlimit : (limit : Int) < bits64.greatest) :
    (∀ l : Nat, (l : Int) < bits64.greatest →
      ((∃ other, procedure.unroll bindings l = .ok other) ↔
        instantiations bindings [] procedure ≤ l) ∧
      (∀ other, procedure.unroll bindings l = .ok other → other = code) ∧
      (l < instantiations bindings [] procedure → ∃ v count left,
        procedure.unroll bindings l = .error (.unsupportedLoop (.tooLong v count left)))) ∧
      Code.size code ≤ size procedure * max 1 (instantiations bindings [] procedure) := by
  obtain ⟨⟨_, left⟩, hblock, hcode⟩ := bind_eq_ok.mp h
  cases pure_eq_ok.mp hcode
  obtain ⟨htakes, hsize⟩ := unrolls_of_unrollBlock procedure hlimit hblock
  have henough (l : Nat) (hl : (l : Int) < bits64.greatest)
      (hn : instantiations bindings [] procedure ≤ l) :
      procedure.unroll bindings l = .ok code := by
    rw [unroll, htakes.enough l hl hn]
    rfl
  have hshort (l : Nat) (hl : (l : Int) < bits64.greatest)
      (hn : l < instantiations bindings [] procedure) : ∃ v count left,
        procedure.unroll bindings l = .error (.unsupportedLoop (.tooLong v count left)) := by
    obtain ⟨v, count, rest, hfail⟩ := htakes.short l hl hn
    exact ⟨v, count, rest, by rw [unroll, hfail]; rfl⟩
  refine ⟨fun l hl => ?_, hsize⟩
  by_cases hn : instantiations bindings [] procedure ≤ l
  · have hl' := henough l hl hn
    refine ⟨iff_of_true ⟨code, hl'⟩ hn, fun other hother => ?_, fun hn' => absurd hn hn'.not_ge⟩
    exact (Except.ok.inj (hl'.symm.trans hother)).symm
  · obtain ⟨v, count, rest, hfail⟩ := hshort l hl (not_le.mp hn)
    have hnone (other : Code) : procedure.unroll bindings l ≠ .ok other := by
      rw [hfail]
      nofun
    exact ⟨iff_of_false (fun ⟨other, hother⟩ => hnone other hother) hn,
      fun other hother => absurd hother (hnone other), fun _ => ⟨v, count, rest, hfail⟩⟩

/-- The inner loop is instantiated anew for each integer of the outer one, and its own bound
depends on that integer. -/
theorem unroll_iff_instantiations_nested :
    let inner : Statement := .loop "j" (.int 0) (.name "i") true [.returns (some (.name "j"))]
    let procedure : Procedure := [.loop "i" (.int 0) (.int 3) false [inner]]
    let returned (n : Int) : Instruction Expression := .returns (some (.int n))
    let code := [0, 0, 1, 0, 1, 2].map returned
    procedure.unroll [] 20 = .ok code ∧ instantiations [] [] procedure = 9 ∧
      (∃ other, procedure.unroll [] 9 = .ok other) ∧
      (∃ v count left,
        procedure.unroll [] 8 = .error (.unsupportedLoop (.tooLong v count left))) ∧
      Code.size code ≤ size procedure * 9 := by
  intro inner procedure returned code
  have hcode : procedure.unroll [] 20 = .ok code := rfl
  obtain ⟨hgate, hsize⟩ := unroll_iff_instantiations hcode (by decide)
  have hcount : instantiations [] [] procedure = 9 := rfl
  rw [hcount] at hgate hsize
  exact ⟨hcode, hcount, (hgate 9 (by decide)).1.mpr (le_refl 9),
    (hgate 8 (by decide)).2.2 (by decide), hsize⟩

end Procedure
end Hologram.Script
