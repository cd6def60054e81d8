import Hologram.Proofs.Outcome
import Hologram.Script.Unrolling

/-! Which iterations a loop has. The body is unrolled once for each integer of the range, in
ascending order. The greatest integer of 64 bits has no successor, so it is the one integer that no
loop comes to, even where it is the last of an inclusive range. -/
namespace Hologram.Script

open Number.Width (bits64)

/-- The integers that the variable of a loop takes, one after the other. -/
def loopValues (low high : Int) (inclusive : Bool) : List Int :=
  let beyond := if inclusive then bits64.saturate (high + 1) else high
  (List.range (beyond - low).toNat).map fun (i : Nat) => low + i

/-- The integers of a loop come in ascending order, so none comes twice. -/
theorem pairwise_loopValues (low high : Int) (inclusive : Bool) :
    (loopValues low high inclusive).Pairwise (· < ·) := by
  unfold loopValues
  rw [List.pairwise_map]
  refine List.pairwise_lt_range.imp fun {a b} hab => ?_
  omega

/-- A loop comes to all integers of its range but the greatest of 64 bits. -/
theorem mem_loopValues {low high : Int} (inclusive : Bool) (hhigh : bits64.holds high = true)
    (i : Int) : i ∈ loopValues low high inclusive ↔
      low ≤ i ∧ (if inclusive then i ≤ high else i < high) ∧ i < bits64.greatest := by
  have hmem (beyond : Int) : (i ∈ (List.range (beyond - low).toNat).map fun (k : Nat) => low + k) ↔
      low ≤ i ∧ i < beyond := by
    simp only [List.mem_map, List.mem_range]
    constructor
    · rintro ⟨k, hk, rfl⟩
      omega
    · intro h
      exact ⟨(i - low).toNat, by omega, by omega⟩
  obtain ⟨hl, hg⟩ := Number.Width.holds_iff.mp hhigh
  unfold loopValues
  rw [hmem]
  cases inclusive with
  | false =>
    simp only [Bool.false_eq_true, if_false]
    omega
  | true =>
    simp only [if_true, Number.Width.saturate]
    omega

namespace Procedure

variable {bindings : Bindings} {scope : Scope}

theorem forRange_eq_mapM (low beyond : Int) (body : Int → Unroll Code) :
    forRange low beyond body = List.flatten <$>
      ((List.range (beyond - low).toNat).map fun (i : Nat) => low + i).mapM body := by
  unfold forRange
  rw [List.mapM_map, map_eq_pure_bind]
  rfl

/-- What a loop takes out of the allowance is the number of its integers, except that it never
takes more than the greatest integer of 64 bits. -/
theorem iterations_eq {low beyond : Int} :
    iterations low beyond = min (beyond - low).toNat bits64.greatest.toNat := by
  simp only [iterations, Number.Width.saturate, Number.Width.least, Number.Width.greatest,
    Number.Width.half, Number.Width.count]
  omega

theorem run_spend {v : String} {count left : Nat} (h : count ≤ left) :
    (spend v count).run left = .ok ((), left - count) := by
  have hn : ¬ left < count := by omega
  change (if left < count then _ else _ : Unroll PUnit).run left = _
  rw [if_neg hn]
  rfl

/-- A loop with its bounds resolved first pays for its iterations and then unrolls its body for
each of its integers. -/
theorem unrollStatement_loop {v : String} {first last first' last' : Expression} {low high : Int}
    {inclusive : Bool} {body : List Statement}
    (hfirst : first.resolve bindings scope = .ok first') (hlow : first'.boundOf v = .ok low)
    (hlast : last.resolve bindings scope = .ok last') (hhigh : last'.boundOf v = .ok high) :
    unrollStatement bindings scope (.loop v first last inclusive body) = (do
      spend v (min (loopValues low high inclusive).length bits64.greatest.toNat)
      List.flatten <$> (loopValues low high inclusive).mapM fun i =>
        unrollBlock bindings ((v, i) :: scope) body) := by
  rw [unrollStatement, hfirst, hlast, loopValues, List.length_map, List.length_range,
    ← iterations_eq, ← forRange_eq_mapM]
  simp only [lift_ok_bind, hlow, hhigh]

/-- A loop whose iterations fit the allowance gives the code of its body for each integer of its
range, in ascending order and once each, apart from the greatest integer of 64 bits: an inclusive
range that ends there lacks it. Where the body fails for an integer the loop fails alike. -/
theorem run_loop {v : String} {first last first' last' : Expression} {low high : Int}
    {inclusive : Bool} {body : List Statement}
    (hfirst : first.resolve bindings scope = .ok first') (hlow : first'.boundOf v = .ok low)
    (hlast : last.resolve bindings scope = .ok last') (hhigh : last'.boundOf v = .ok high)
    (hfits : bits64.holds high = true) :
    (loopValues low high inclusive).Pairwise (· < ·) ∧
      (∀ i, i ∈ loopValues low high inclusive ↔
        low ≤ i ∧ (if inclusive then i ≤ high else i < high) ∧ i < bits64.greatest) ∧
      ∀ left, (loopValues low high inclusive).length ≤ left →
        (unrollStatement bindings scope (.loop v first last inclusive body)).run left =
          (List.flatten <$> (loopValues low high inclusive).mapM fun i =>
            unrollBlock bindings ((v, i) :: scope) body).run
              (left - min (loopValues low high inclusive).length bits64.greatest.toNat) := by
  refine ⟨pairwise_loopValues low high inclusive, mem_loopValues inclusive hfits,
    fun left hleft => ?_⟩
  rw [unrollStatement_loop hfirst hlow hlast hhigh, StateT.run_bind,
    run_spend (Nat.le_trans (Nat.min_le_left _ _) hleft), ok_bind]

/-- An inclusive range from a variable of the loop around it, whose bound comes from a binding. -/
theorem run_loop_nested :
    let body : List Statement := [.assign (.name "v.x") none (.name "j")]
    let inner : Statement := .loop "j" (.name "i") (.placeholder ⟨"n", none, none⟩) true body
    (loopValues (-1) 1 true).Pairwise (· < ·) ∧
      (∀ i, i ∈ loopValues (-1) 1 true ↔ -1 ≤ i ∧ i ≤ 1 ∧ i < bits64.greatest) ∧
      (unrollStatement [("n", .int 1)] [("i", -1)] inner).run 5 = .ok
        ([.assign (.name "v.x") (.int (-1)), .assign (.name "v.x") (.int 0),
          .assign (.name "v.x") (.int 1)], 2) := by
  intro body inner
  have hfirst : (Expression.name "i").resolve [("n", .int 1)] [("i", -1)] = .ok (.int (-1)) := rfl
  have hlow : (Expression.int (-1)).boundOf "j" = .ok (-1) := rfl
  have hlast : (Expression.placeholder ⟨"n", none, none⟩).resolve [("n", .int 1)] [("i", -1)] =
      .ok (.int 1) := rfl
  have hhigh : (Expression.int 1).boundOf "j" = .ok 1 := rfl
  have hfits : bits64.holds 1 = true := by decide
  obtain ⟨hascending, hmem, hrun⟩ :=
    @run_loop _ _ _ _ _ _ _ _ _ true body hfirst hlow hlast hhigh hfits
  exact ⟨hascending, hmem, hrun 5 (by decide)⟩

/-- An inclusive loop from the greatest integer of 64 bits to itself has no iteration. -/
theorem loop_not_always_complete :
    ¬ ∀ (v : String) (low high : Int) (inclusive : Bool) (body : List Statement)
      (values : List Int) (left : Nat), bits64.holds low = true → bits64.holds high = true →
      values.Pairwise (· < ·) →
      (∀ i, i ∈ values ↔ low ≤ i ∧ (if inclusive then i ≤ high else i < high)) →
      values.length ≤ left →
        ((unrollStatement [] [] (.loop v (.int low) (.int high) inclusive body)).run left).map
            Prod.fst =
          ((values.mapM fun i => unrollBlock [] [(v, i)] body).run left).map
            fun result => result.1.flatten := by
  intro h
  let last := bits64.greatest
  have hvalues (i : Int) : i ∈ [last] ↔ last ≤ i ∧ i ≤ last := by
    rw [List.mem_singleton]
    omega
  have hcode : (Except.ok [] : Except CompileError Code) = .ok [.returns none] :=
    h "i" last last true [.returns none] [last] 1 (by decide) (by decide)
      (List.pairwise_singleton _ _) hvalues (by decide)
  cases hcode

end Procedure
end Hologram.Script
