import Hologram.Proofs.Script.Expansion
import Hologram.Proofs.Script.Resolution

/-! Unrolling keeps what a procedure does. The code of a statement, once every target in it is a
variable, runs as the statement runs inside its loops; the parts of a loop run one after the other
as its iterations do. -/
namespace Hologram.Script

namespace Program

/-- A block that does nothing goes before another without a trace. -/
theorem proceeds_andThen (run : Run Flow) : andThen (pure .proceeds) run = run := by
  simp only [andThen, pure_bind]

theorem andThen_proceeds (run : Run Flow) : andThen run (pure .proceeds) = run := by
  calc andThen run (pure .proceeds)
      = run >>= pure := by
        unfold andThen
        congr 1
        funext flow
        cases flow <;> rfl
    _ = run := bind_pure run

theorem andThen_assoc (first second third : Run Flow) :
    andThen (andThen first second) third = andThen first (andThen second third) := by
  unfold andThen
  rw [bind_assoc]
  congr 1
  funext flow
  cases flow with
  | proceeds => rfl
  | returned value => simp only [pure_bind]

variable (functions : Functions)

theorem runBlock_cons (i : Instruction String) (rest : Program) :
    runBlock functions (i :: rest) =
      andThen (runInstruction functions i) (runBlock functions rest) := by
  rw [runBlock]
  rfl

theorem runBlock_append (first second : Program) :
    runBlock functions (first ++ second) =
      andThen (runBlock functions first) (runBlock functions second) := by
  induction first with
  | nil =>
    rw [List.nil_append, runBlock, proceeds_andThen]
  | cons i rest ih =>
    rw [List.cons_append, runBlock_cons, runBlock_cons, ih, andThen_assoc]

/-- The code runs, and what it does is the given run. -/
def Runs (code : Code) (run : Run Flow) : Prop :=
  ∃ program, Code.program? code = some program ∧ runBlock functions program = run

end Program

namespace Code
open Program

theorem program?_append {first second : Code} {a b : Program} (ha : program? first = some a)
    (hb : program? second = some b) : program? (first ++ second) = some (a ++ b) := by
  induction first generalizing a with
  | nil =>
    cases ha
    exact hb
  | cons i rest ih =>
    simp only [program?, Option.bind_eq_bind, Option.bind_eq_some_iff, Option.pure_def,
      Option.some.injEq] at ha
    obtain ⟨j, hj, more, hmore, rfl⟩ := ha
    simp only [List.cons_append, program?, hj, ih hmore]
    rfl

end Code

namespace Program

variable {functions : Functions}

theorem runs_nil : Runs functions [] (pure .proceeds) :=
  ⟨[], rfl, by rw [runBlock]⟩

theorem Runs.append {first second : Code} {a b : Run Flow} (ha : Runs functions first a)
    (hb : Runs functions second b) : Runs functions (first ++ second) (andThen a b) := by
  obtain ⟨p, hp, rfl⟩ := ha
  obtain ⟨q, hq, rfl⟩ := hb
  exact ⟨p ++ q, Code.program?_append hp hq, runBlock_append functions p q⟩

variable (functions) in
theorem runs_singleton (i : Instruction Expression) {j : Instruction String}
    (h : i.named? = some j) : Runs functions [i] (runInstruction functions j) := by
  refine ⟨[j], by rw [Code.program?, h]; rfl, ?_⟩
  rw [runBlock_cons, runBlock, andThen_proceeds]

/-- A branch runs when its arms do. -/
theorem Runs.branch {first second : Code} {a b : Run Flow} (condition : Expression)
    (ha : Runs functions first a) (hb : Runs functions second b) :
    Runs functions [.branch condition first second] (do
      if (← valueOf functions condition).isTruthy then a else b) := by
  obtain ⟨p, hp, rfl⟩ := ha
  obtain ⟨q, hq, rfl⟩ := hb
  have h : Instruction.named? (.branch condition first second) = some (.branch condition p q) := by
    rw [Instruction.named?, hp, hq]
    rfl
  have hrun := runs_singleton functions _ h
  rwa [runInstruction] at hrun

end Program

namespace Procedure
open Program

variable {bindings : Bindings} {functions : Functions} {scope : Scope}

/-- Resolved or not, an expression has one value in every store. -/
theorem valueOf_of_resolve {e r : Expression} (h : e.resolve bindings scope = .ok r) :
    valueOf functions r = meaningOf bindings functions scope e := by
  unfold valueOf meaningOf
  congr 1
  funext store
  rw [Expression.evaluate_of_resolve functions store e h]

/-- The parts of a loop run one after the other. -/
theorem runs_flatten {run : Int → Run Flow} {values : List Int} {parts : List Code}
    (h : List.Forall₂ (fun i part => Runs functions part (run i)) values parts) :
    Runs functions parts.flatten
      (values.foldr (fun i => andThen (run i)) (pure .proceeds)) := by
  induction h with
  | nil => exact runs_nil
  | cons hpart _ ih => exact hpart.append ih

theorem forEach_eq_foldr (run : Int → Run Flow) (low : Int) (count : Nat) :
    forEach run low count = ((List.range count).map fun (i : Nat) => low + i).foldr
      (fun i => andThen (run i)) (pure .proceeds) := by
  induction count generalizing low with
  | zero => rfl
  | succ count ih =>
    have hshift : (fun (i : Nat) => low + 1 + i) = fun (i : Nat) => low + (i + 1 : Nat) := by
      funext i
      omega
    rw [forEach, ih, hshift, List.range_succ_eq_map, List.map_cons, List.map_map, List.foldr_cons]
    simp only [Int.natCast_zero, Int.add_zero, Function.comp_def]

/-- A bound that compiles is the bound that the loop has as it is written. -/
theorem bound?_of_resolve {e r : Expression} {variableName : String} {n : Int}
    (h : e.resolve bindings scope = .ok r) (hn : r.boundOf variableName = .ok n) :
    e.bound? bindings scope = some n := by
  cases e with
  | int value =>
    simp only [Expression.resolve] at h
    cases h
    cases hn
    rfl
  | float value =>
    simp only [Expression.resolve] at h
    cases h
    change (Constant.float value).toExpression.boundOf variableName = .ok n at hn
    exact Constant.toInt?_of_boundOf hn
  | name x =>
    simp only [Expression.resolve] at h
    cases hs : scope.get? x with
    | some value =>
      rw [hs] at h
      cases h
      cases hn
      exact hs
    | none =>
      rw [hs] at h
      cases h
      contradiction
  | placeholder p => exact Placeholder.bound?_of_resolve h hn
  | call | index | binary | unary | conditional | guarded =>
    simp only [Expression.resolve, bind_eq_ok, pure_eq_ok] at h
    grind [Expression.boundOf]
  | _ =>
    simp only [Expression.resolve] at h
    cases h
    contradiction

theorem resolve_binary (operator : BinaryOperator) {a b r s : Expression}
    (ha : a.resolve bindings scope = .ok r) (hb : b.resolve bindings scope = .ok s) :
    (Expression.binary operator a b).resolve bindings scope = .ok (.binary operator r s) := by
  rw [Expression.resolve, ha, hb]
  rfl

/-- The integer after a bound that is less than the greatest of 64 bits is one of 64 bits. -/
theorem saturate_succ {n : Int} (hl : Number.Width.bits64.least ≤ n)
    (hg : n < Number.Width.bits64.greatest) :
    Number.Width.bits64.saturate (n + 1) = n + 1 := by
  refine Number.Width.saturate_of_holds (Number.Width.holds_iff.mpr ⟨?_, ?_⟩) <;> omega

/-- The integers of a loop whose bound has a successor. -/
theorem loopValues_eq {low high : Int} {inclusive : Bool}
    (h : inclusive = true →
      Number.Width.bits64.least ≤ high ∧ high < Number.Width.bits64.greatest) :
    loopValues low high inclusive =
      (List.range ((if inclusive then high + 1 else high) - low).toNat).map
        fun (i : Nat) => low + i := by
  unfold loopValues
  cases inclusive with
  | false => rfl
  | true =>
    have hsucc := saturate_succ (h rfl).1 (h rfl).2
    simp only [if_true, hsucc]

mutual

/-- The code of a statement does what the statement does. -/
theorem runs_of_unrollStatement : ∀ (s : Statement) {scope : Scope} {left left' : Nat}
    {code : Code}, (unrollStatement bindings scope s).run left = .ok (code, left') →
      Proper bindings scope s →
        Runs functions code (runStatement bindings functions scope s)
  | .assign target operator value, scope, left, left', code, h, hp => by
    cases expands_of_run h with
    | assign _ htarget hvalue =>
      obtain ⟨x, rfl, hx⟩ := hp
      have hname : (Expression.name x).resolve bindings scope = .ok (.name x) := by
        rw [Expression.resolve, hx]
      rw [hname] at htarget
      cases htarget
      have hrun (v : Expression) := runs_singleton functions (.assign (.name x) v) rfl
      simp only [runInstruction] at hrun
      cases operator with
      | none =>
        rw [runStatement, ← valueOf_of_resolve hvalue]
        exact hrun _
      | some operator =>
        have hbinary := resolve_binary operator hname hvalue
        rw [runStatement, ← valueOf_of_resolve hbinary]
        exact hrun _
  | .eval e, scope, left, left', code, h, hp => by
    cases expands_of_run h with
    | @eval _ r hr =>
      have hrun := runs_singleton functions (.eval r) rfl
      rwa [runInstruction, valueOf_of_resolve hr] at hrun
  | .returns none, scope, left, left', code, h, hp => by
    cases expands_of_run h with
    | returnsNothing =>
      have hrun := runs_singleton functions (.returns none) rfl
      rwa [runInstruction] at hrun
  | .returns (some value), scope, left, left', code, h, hp => by
    cases expands_of_run h with
    | @returns _ r hr =>
      have hrun := runs_singleton functions (.returns (some r)) rfl
      rwa [runInstruction, valueOf_of_resolve hr] at hrun
  | .guarded condition satisfied, scope, left, left', code, h, hp => by
    cases expands_of_run h with
    | guarded hcondition hsatisfied =>
      rw [runStatement, ← valueOf_of_resolve hcondition]
      exact (runs_of_unrollBlock satisfied hsatisfied hp).branch _ runs_nil
  | .branch condition satisfied unsatisfied, scope, left, left', code, h, hp => by
    cases expands_of_run h with
    | branch hcondition hsatisfied hunsatisfied =>
      rw [runStatement, ← valueOf_of_resolve hcondition]
      exact (runs_of_unrollBlock satisfied hsatisfied hp.1).branch _
        (runs_of_unrollBlock unsatisfied hunsatisfied hp.2)
  | .loop v first last inclusive body, scope, left, left', code, h, hp => by
    cases expands_of_run h with
    | loop hfirst hlow hlast hhigh _ hparts =>
      have hlow := bound?_of_resolve hfirst hlow
      have hhigh := bound?_of_resolve hlast hhigh
      obtain ⟨hbound, hbody⟩ := hp _ _ hlow hhigh
      rw [runStatement, hlow, hhigh]
      dsimp only
      rw [forEach_eq_foldr, ← loopValues_eq hbound]
      refine runs_flatten (((List.forall₂_and_left _ _).mpr
        ⟨fun _ hi => hi, forall₂_of_run_mapM_eq_ok hparts⟩).imp ?_)
      rintro i part ⟨hi, _, _, hpart⟩
      rw [loopValues_eq hbound] at hi
      obtain ⟨k, hk, rfl⟩ := List.mem_map.mp hi
      have hk := List.mem_range.mp hk
      exact runs_of_unrollBlock body hpart (hbody _ (by omega) (by omega))

/-- The code of several statements does what the statements do. -/
theorem runs_of_unrollBlock : ∀ (ss : List Statement) {scope : Scope} {left left' : Nat}
    {code : Code}, (unrollBlock bindings scope ss).run left = .ok (code, left') →
      AllProper bindings scope ss →
        Runs functions code (runStatements bindings functions scope ss)
  | [], scope, left, left', code, h, hp => by
    rw [unrollBlock_nil h, runStatements]
    exact runs_nil
  | s :: rest, scope, left, left', code, h, hp => by
    obtain ⟨first, _, more, rfl, hfirst, hmore⟩ := unrollBlock_cons h
    rw [runStatements]
    exact (runs_of_unrollStatement s hfirst hp.1).append (runs_of_unrollBlock rest hmore hp.2)

end

end Procedure
end Hologram.Script
