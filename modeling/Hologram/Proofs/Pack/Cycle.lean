import Hologram.Pack.Selection
import Hologram.Proofs.Dictionary
import Hologram.Proofs.Number.Digits
import Hologram.Proofs.Pack.Controller
import Mathlib.Algebra.Order.Group.Nat

/-! The controller of selection goes round the structures, one at a time and in their order, and
stops where the selected structure is shown. -/
namespace Hologram.Selection

open Script

theorem states_controller {count : Nat} (h : 0 < count) : (controller count).states =
    (List.range count).map fun index => (state index, stateOf count index) := by
  have hne : (List.range count).isEmpty = false := by
    rw [List.isEmpty_eq_false_iff, ne_eq, List.range_eq_nil]
    omega
  simp [controller, hne]

theorem distinct_states {count : Nat} (h : 0 < count) :
    Dictionary.Distinct (controller count).states := by
  rw [states_controller h, Dictionary.Distinct, List.map_map]
  exact List.nodup_range.map fun _ _ => Number.numbered_inj

theorem state?_state {count index : Nat} (h : index < count) :
    (controller count).state? (state index) = some (stateOf count index) := by
  have hpos : 0 < count := by omega
  refine (distinct_states hpos).get?_eq_some_iff.mpr ?_
  rw [states_controller hpos]
  exact List.mem_map.mpr ⟨index, List.mem_range.mpr h, rfl⟩

/-- The states from one on, each followed by the next and the last by the first. -/
def round (count start length : Nat) : List String :=
  (List.range length).map fun k => state ((start + k) % count)

theorem round_succ {count start : Nat} (h : start < count) (length : Nat) :
    round count start (length + 1) =
      state start :: round count ((start + 1) % count) length := by
  rw [round, List.range_succ_eq_map, List.map_cons, List.map_map, Nat.add_zero,
    Nat.mod_eq_of_lt h]
  congr 1
  refine List.map_congr_left fun k _ => ?_
  rw [Function.comp_apply, Nat.mod_add_mod, Nat.succ_eq_add_one]
  congr 2
  omega

theorem distance_eq {count first last : Nat} (hfirst : first < count) (hlast : last < count) :
    (((last : Int) - first) % count).toNat =
      if first ≤ last then last - first else last + count - first := by
  split_ifs with h
  · rw [Int.emod_eq_of_lt (by omega) (by omega)]
    omega
  · rw [← Int.add_emod_right, Int.emod_eq_of_lt (by omega) (by omega)]
    omega

/-- The distance to a place is the number of steps after which it is first reached. -/
theorem add_mod_eq_iff {count first last k : Nat} (hfirst : first < count) (hlast : last < count)
    (hk : k < count) :
    (first + k) % count = last ↔ k = (((last : Int) - first) % count).toNat := by
  rw [distance_eq hfirst hlast, Nat.add_mod_eq_ite, Nat.mod_eq_of_lt hfirst, Nat.mod_eq_of_lt hk]
  split_ifs <;> omega

section

variable {functions : Functions} {store : Store} {count index last : Nat}

theorem decides_forward (hstore : store.HasInt Variable.structureIndex.name last)
    (hlast : last ≤ 2 ^ 53) (hindex : index ≤ 2 ^ 53) (target : String) :
    (Transition.when target (Variable.structureIndex.compare .notEqual index)).Decides functions
      store (decide (last ≠ index)) := by
  refine Transition.decides_when (Variable.faithful_compare (by decide) _ (by omega)) ?_ target
  refine Expression.decides_compare rfl hstore (by omega) (by omega) ?_
  simp

/-- In the state of the selected structure no guard holds. -/
theorem enabled?_selected (hstore : store.HasInt Variable.structureIndex.name last)
    (hlast : last ≤ 2 ^ 53) :
    Controller.enabled? functions store (stateOf count last).transitions = .ok none := by
  dsimp only [stateOf]
  split_ifs
  · have hstay : Transition.Decides functions store _ (decide (last ≠ last)) :=
      decides_forward hstore hlast hlast (state ((last + 1) % count))
    rw [decide_eq_false (by simp)] at hstay
    rw [Controller.enabled?_cons_of_decides_false _ hstay]
    rfl
  · rfl

/-- The state of another structure is left for the next one. -/
theorem enabled?_other (hstore : store.HasInt Variable.structureIndex.name last)
    (hcount : count ≤ 2 ^ 53) (hlast : last < count) (hindex : index < count)
    (hne : last ≠ index) :
    ∃ t, t.target = state ((index + 1) % count) ∧
      Controller.enabled? functions store (stateOf count index).transitions = .ok (some t) := by
  have hseveral : 1 < count := by omega
  have hleave : Transition.Decides functions store _ (decide (last ≠ index)) :=
    decides_forward hstore (by omega) (by omega) (state ((index + 1) % count))
  rw [decide_eq_true hne] at hleave
  dsimp only [stateOf]
  rw [if_pos hseveral]
  exact ⟨_, rfl, Controller.enabled?_cons_of_decides_true _ hleave⟩

/-- A run goes on as long as it has not come to the selected structure. -/
theorem runWithin_round (hstore : store.HasInt Variable.structureIndex.name last)
    (hcount : count ≤ 2 ^ 53) (hlast : last < count) (hindex : index < count) {distance : Nat}
    (hreached : (index + distance) % count = last)
    (hbefore : ∀ k < distance, (index + k) % count ≠ last) (steps : Nat) :
    (controller count).runWithin functions store (steps + distance + 1) (state index) =
      ⟨round count index (distance + 1), .settled⟩ := by
  induction distance generalizing index with
  | zero =>
    obtain rfl : index = last := by rwa [Nat.add_zero, Nat.mod_eq_of_lt hindex] at hreached
    rw [Controller.runWithin, state?_state hindex, round_succ hindex]
    simp only [enabled?_selected hstore (show index ≤ 2 ^ 53 by omega)]
    rfl
  | succ distance ih =>
    have hne : last ≠ index := by
      have := hbefore 0 (Nat.succ_pos _)
      rwa [Nat.add_zero, Nat.mod_eq_of_lt hindex, ne_comm] at this
    have hshift (k : Nat) : ((index + 1) % count + k) % count = (index + (k + 1)) % count := by
      rw [Nat.mod_add_mod]
      congr 1
      omega
    obtain ⟨t, ht, htaken⟩ : ∃ t, t.target = state ((index + 1) % count) ∧
        Controller.enabled? functions store (stateOf count index).transitions = .ok (some t) :=
      enabled?_other hstore hcount hlast hindex hne
    have hfurther := ih (Nat.mod_lt _ (by omega)) (by rwa [hshift])
      fun k hk => by rw [hshift]; exact hbefore (k + 1) (by omega)
    rw [← ht] at hfurther
    rw [Controller.runWithin, state?_state hindex, round_succ hindex]
    simp only [htaken]
    rw [← Nat.add_assoc, hfurther]

/-- From every state the run visits one structure after the other and stops in the state of the
selected one, which comes as many steps later as its number does in the ring. -/
theorem run_round (functions : Functions) (hcount : count < 2 ^ 53) {first : Nat}
    (hfirst : first < count) (hlast : last < count)
    (hstore : store.HasInt Variable.structureIndex.name last) :
    let distance := (((last : Int) - first) % count).toNat
    (controller count).run functions store (state first) =
        ⟨(List.range (distance + 1)).map fun k => state ((first + k) % count), .settled⟩ ∧
      ((controller count).run functions store (state first)).last? = some (state last) := by
  intro distance
  have hdistance : distance < count := by
    have := distance_eq hfirst hlast
    split_ifs at this <;> omega
  have hreached : (first + distance) % count = last :=
    (add_mod_eq_iff hfirst hlast hdistance).mpr rfl
  have hrun : (controller count).run functions store (state first) =
      ⟨round count first (distance + 1), .settled⟩ := by
    have hbefore : ∀ k < distance, (first + k) % count ≠ last := fun k hk hlast' => by
      have := (add_mod_eq_iff hfirst hlast (hk.trans hdistance)).mp hlast'
      omega
    have hsteps : (controller count).states.length + 1 = count - distance + distance + 1 := by
      rw [states_controller (by omega), List.length_map, List.length_range]
      omega
    rw [Controller.run, hsteps]
    exact runWithin_round hstore (by omega) hlast hfirst hreached hbefore _
  refine ⟨hrun, ?_⟩
  rw [hrun, Controller.Run.last?, round, List.range_succ, List.map_append, List.map_singleton,
    List.getLast?_concat, hreached]

end

/-- Of five structures the second is selected while the fourth is shown. -/
theorem run_round_five :
    let store : Store := [("v.hologram.structure_index", .number 1.0)]
    5 < 2 ^ 53 ∧ 3 < 5 ∧ 1 < 5 ∧ store.HasInt Variable.structureIndex.name (1 : Nat) ∧
      (controller 5).run [] store "s_3" = ⟨["s_3", "s_4", "s_0", "s_1"], .settled⟩ ∧
      ((controller 5).run [] store "s_3").last? = some "s_1" := by
  intro store
  have hstore : store.HasInt Variable.structureIndex.name (1 : Nat) :=
    ⟨1.0, by decide +kernel, by decide +kernel⟩
  have hcount : 5 < 2 ^ 53 := by decide
  obtain ⟨hrun, hlast⟩ :=
    run_round [] hcount (show 3 < 5 by decide) (show 1 < 5 by decide) hstore
  exact ⟨hcount, by decide, by decide, hstore, hrun, hlast⟩

end Hologram.Selection
