import Hologram.Proofs.Script.Naming
import Hologram.Proofs.Script.Unrolling

/-! What code assigns. A text assigns only to variables and indexed places, and unrolling leaves
them what they are, apart from the variable of a loop: inside the loop an integer takes its place,
on the left of an assignment too. -/
namespace Hologram.Script

namespace Expression

/-- A place resolves to a place, or it is a loop variable and resolves to its value. -/
theorem resolve_place {bindings : Bindings} {scope : Scope} {e r : Expression}
    (he : e.isPlace = true) (h : e.resolve bindings scope = .ok r) :
    (r.isPlace = true ∧ ∀ x, e = name x → scope.get? x = none) ∨
      ∃ x n, e = name x ∧ scope.get? x = some n ∧ r = int n := by
  cases e with
  | name x =>
    rw [resolve] at h
    cases hx : scope.get? x with
    | none =>
      rw [hx] at h
      cases h
      refine .inl ⟨rfl, fun y hy => ?_⟩
      cases hy
      exact hx
    | some n =>
      rw [hx] at h
      cases h
      exact .inr ⟨x, n, rfl, hx, rfl⟩
  | index a b =>
    rw [resolve] at h
    obtain ⟨a', -, h⟩ := bind_eq_ok.mp h
    obtain ⟨b', -, h⟩ := bind_eq_ok.mp h
    cases pure_eq_ok.mp h
    exact .inl ⟨rfl, fun x hx => Expression.noConfusion hx⟩
  | _ => contradiction

end Expression

namespace Procedure
open Expression

variable (bindings : Bindings)

mutual

/-- Inside the loops of `scope`, a statement assigns to none of their variables. -/
def Spares (scope : Scope) : Statement → Prop
  | .assign target _ _ => ∀ x, target = .name x → scope.get? x = none
  | .guarded _ satisfied => AllSpare scope satisfied
  | .branch _ satisfied unsatisfied => AllSpare scope satisfied ∧ AllSpare scope unsatisfied
  | .loop variableName first last inclusive body =>
    ∀ low high, first.bound? bindings scope = some low → last.bound? bindings scope = some high →
      ∀ i < ((if inclusive then Number.Width.bits64.saturate (high + 1) else high) - low).toNat,
        AllSpare ((variableName, low + i) :: scope) body
  | _ => True

/-- Inside the loops of `scope`, statements assign to none of their variables. -/
def AllSpare (scope : Scope) : List Statement → Prop
  | [] => True
  | s :: rest => Spares scope s ∧ AllSpare scope rest

end

end Procedure

namespace Code

/-- Code assigns to places and integers only, and to no integer exactly where something is
spared. -/
def Assigns (code : Code) (spared : Prop) : Prop :=
  (∀ t ∈ code.targets, t.isPlace = true ∨ ∃ n, t = .int n) ∧
    ((∀ t ∈ code.targets, t.isPlace = true) ↔ spared)

theorem targets_append (first second : Code) :
    targets (first ++ second) = targets first ++ targets second := by
  induction first with
  | nil => rfl
  | cons i rest ih => rw [List.cons_append, targets, targets, ih, List.append_assoc]

theorem targets_singleton (i : Instruction Expression) : targets [i] = instructionTargets i := by
  rw [targets, targets, List.append_nil]

theorem assigns_nothing {code : Code} (h : code.targets = []) : code.Assigns True := by
  unfold Assigns
  rw [h]
  exact ⟨nofun, iff_true_intro nofun⟩

variable {first second : Code} {P Q : Prop}

theorem Assigns.of_targets {code : Code} (h : first.Assigns P) (h' : second.Assigns Q)
    (hcode : code.targets = first.targets ++ second.targets) : code.Assigns (P ∧ Q) := by
  unfold Assigns
  rw [hcode, List.forall_mem_append, List.forall_mem_append, h.2, h'.2]
  exact ⟨⟨h.1, h'.1⟩, Iff.rfl⟩

theorem Assigns.append (h : first.Assigns P) (h' : second.Assigns Q) :
    (first ++ second).Assigns (P ∧ Q) :=
  h.of_targets h' (targets_append first second)

theorem Assigns.branch (condition : Expression) (h : first.Assigns P) (h' : second.Assigns Q) :
    Assigns [.branch condition first second] (P ∧ Q) :=
  h.of_targets h' (targets_singleton _)

theorem Assigns.congr (h : first.Assigns P) (hPQ : P ↔ Q) : first.Assigns Q :=
  propext hPQ ▸ h

theorem assigns_flatten {parts : List Code} {values : List Int} {P : Int → Prop}
    (h : List.Forall₂ (fun i (part : Code) => part.Assigns (P i)) values parts) :
    Assigns parts.flatten (∀ i ∈ values, P i) := by
  induction h with
  | nil => exact (assigns_nothing rfl).congr (iff_of_true trivial nofun)
  | cons hpart _ ih =>
    rw [List.flatten_cons]
    exact (hpart.append ih).congr List.forall_mem_cons.symm

end Code

namespace Procedure
open Expression

variable {bindings : Bindings}

theorem assigns_assign {scope : Scope} {target r value : Expression}
    (htarget : target.isPlace = true) (h : target.resolve bindings scope = .ok r) :
    Code.Assigns [.assign r value] (∀ x, target = .name x → scope.get? x = none) := by
  unfold Code.Assigns
  rw [Code.targets_singleton, Code.instructionTargets, List.forall_mem_singleton,
    List.forall_mem_singleton]
  rcases resolve_place htarget h with ⟨hr, hspared⟩ | ⟨x, n, rfl, hx, rfl⟩
  · exact ⟨.inl hr, iff_of_true hr hspared⟩
  · refine ⟨.inr ⟨n, rfl⟩, iff_of_false Bool.false_ne_true fun hspared => ?_⟩
    rw [hspared x rfl] at hx
    contradiction

mutual

theorem assigns_of_unrollStatement : ∀ (s : Statement) {scope : Scope} {left left' : Nat}
    {code : Code}, (unrollStatement bindings scope s).run left = .ok (code, left') →
      (∀ t ∈ statementTargets s, t.isPlace = true) → code.Assigns (Spares bindings scope s)
  | .assign target operator value, scope, left, left', code, h, hs => by
    cases expands_of_run h with
    | assign _ htarget => exact assigns_assign (hs target (.head _)) htarget
  | .eval e, scope, left, left', code, h, hs => by
    cases expands_of_run h with
    | eval => exact Code.assigns_nothing rfl
  | .returns none, scope, left, left', code, h, hs => by
    cases expands_of_run h with
    | returnsNothing => exact Code.assigns_nothing rfl
  | .returns (some value), scope, left, left', code, h, hs => by
    cases expands_of_run h with
    | returns => exact Code.assigns_nothing rfl
  | .guarded condition satisfied, scope, left, left', code, h, hs => by
    cases expands_of_run h with
    | guarded _ hsatisfied =>
      have hsatisfied := assigns_of_unrollBlock satisfied hsatisfied hs
      exact (hsatisfied.branch _ (Code.assigns_nothing rfl)).congr (and_iff_left trivial)
  | .branch condition satisfied unsatisfied, scope, left, left', code, h, hs => by
    cases expands_of_run h with
    | branch _ hsatisfied hunsatisfied =>
      obtain ⟨hs, hs'⟩ := List.forall_mem_append.mp hs
      exact (assigns_of_unrollBlock satisfied hsatisfied hs).branch _
        (assigns_of_unrollBlock unsatisfied hunsatisfied hs')
  | .loop v first last inclusive body, scope, left, left', code, h, hs => by
    cases expands_of_run h with
    | loop hfirst hlow hlast hhigh _ hparts =>
      have hlow := bound?_of_resolve hfirst hlow
      have hhigh := bound?_of_resolve hlast hhigh
      have hassigns := Code.assigns_flatten ((forall₂_of_run_mapM_eq_ok hparts).imp
        fun i part hpart => by
          obtain ⟨_, _, hpart⟩ := hpart
          exact assigns_of_unrollBlock body hpart hs)
      refine hassigns.congr ?_
      simp only [loopValues, List.forall_mem_map, List.mem_range, Spares, hlow, hhigh,
        Option.some.injEq]
      constructor
      · rintro hall _ _ rfl rfl
        exact hall
      · exact fun hspares => hspares _ _ rfl rfl

theorem assigns_of_unrollBlock : ∀ (ss : Procedure) {scope : Scope} {left left' : Nat}
    {code : Code}, (unrollBlock bindings scope ss).run left = .ok (code, left') →
      (∀ t ∈ targets ss, t.isPlace = true) → code.Assigns (AllSpare bindings scope ss)
  | [], scope, left, left', code, h, hs => by
    rw [unrollBlock_nil h]
    exact Code.assigns_nothing rfl
  | s :: rest, scope, left, left', code, h, hs => by
    obtain ⟨first, _, more, rfl, hfirst, hmore⟩ := unrollBlock_cons h
    rw [targets, List.forall_mem_append] at hs
    exact (assigns_of_unrollStatement s hfirst hs.1).append
      (assigns_of_unrollBlock rest hmore hs.2)

end

/-- The code of a text assigns to places, at any depth of its branches, and to integers where the
text assigns to the variable of a loop inside the loop; so it assigns to places alone exactly when
no iteration of a loop assigns to the variable of the loop or of one around it. -/
theorem targets_of_unroll {text : String} {p : Procedure} {limit : Nat} {code : Code}
    (h : ofText text = .ok p) (hcode : p.unroll bindings limit = .ok code) :
    (∀ t ∈ code.targets, t.isPlace = true ∨ ∃ n, t = .int n) ∧
      ((∀ t ∈ code.targets, t.isPlace = true) ↔ AllSpare bindings [] p) := by
  obtain ⟨⟨_, left⟩, hblock, hcode⟩ := bind_eq_ok.mp hcode
  cases pure_eq_ok.mp hcode
  exact assigns_of_unrollBlock p hblock (places_of_ofText h)

set_option maxRecDepth 20000 in
/-- The position in an indexed place may be the variable of the loop. -/
theorem targets_of_unroll_indexed :
    let p : Procedure := [.loop "i" (.int 0) (.int 2) false
      [.assign (.index (.name "a") (.name "i")) none (.name "i")]]
    let code : Code := [.assign (.index (.name "a") (.int 0)) (.int 0),
      .assign (.index (.name "a") (.int 1)) (.int 1)]
    ofText "for(i=0;i<2;i++)a[i]=i" = .ok p ∧ p.unroll [] 2 = .ok code ∧
      (∀ t ∈ code.targets, t.isPlace = true) ∧ AllSpare [] [] p := by
  intro p code
  have h : ofText "for(i=0;i<2;i++)a[i]=i" = .ok p := by cbv
  have hcode : p.unroll [] 2 = .ok code := rfl
  have hplaces : ∀ t ∈ code.targets, t.isPlace = true := by decide
  exact ⟨h, hcode, hplaces, (targets_of_unroll h hcode).2.mp hplaces⟩

set_option maxRecDepth 20000 in
/-- An assignment to the variable of a loop becomes an assignment to an integer. -/
theorem target_not_always_place :
    ¬ ∀ text p bindings limit code, ofText text = .ok p → p.unroll bindings limit = .ok code →
      ∀ t ∈ code.targets, t.isPlace = true := by
  intro h
  have hread : ofText "for(i=0;i<1;i++)i=3" =
      .ok [.loop "i" (.int 0) (.int 1) false [.assign (.name "i") none (.int 3)]] := by cbv
  have hplaces := h _ _ [] 1 [.assign (.int 0) (.int 3)] hread rfl
  exact Bool.false_ne_true (hplaces (.int 0) (.head _))

end Procedure
end Hologram.Script
