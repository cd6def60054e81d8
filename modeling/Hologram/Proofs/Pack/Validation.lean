import Hologram.Pack.Validation
import Hologram.Proofs.Dictionary
import Hologram.Proofs.Number.Digits
import Hologram.Proofs.Pack.Controller

/-! The controller of validation settles in the state that the selection asks for, from every state
and after two transitions at the most. -/
namespace Hologram

open Script

namespace Validation

/-- What is validated: nothing, a whole structure or one of its layers. -/
inductive Shown where
  | nothing
  | whole (index : Nat)
  | layer (index y : Nat)
  deriving DecidableEq, Repr

namespace Shown

def state : Shown → String
  | nothing => idle
  | whole index => wholeState index
  | layer index y => layerState index y

def selection : Shown → Int
  | layer _ y => y
  | _ => -1

theorem toList_state_whole (index : Nat) :
    (whole index).state.toList = "validate_".toList ++ ((toString index).toList ++ []) := by
  rw [List.append_nil]
  exact String.toList_append

theorem toList_state_layer (index y : Nat) : (layer index y).state.toList =
    "validate_".toList ++ ((toString index).toList ++ ("_l_".toList ++ (toString y).toList)) := by
  simp only [state, layerState, wholeState, String.toList_append, List.append_assoc]

theorem eq_nothing_of_state_eq {a : Shown} (h : a.state = idle) : a = .nothing := by
  have hhead (rest : List Char) : "validate_".toList ++ rest ≠ idle.toList := by
    intro h
    exact absurd (congrArg List.head? h) (show some 'v' ≠ some 'd' by decide)
  have htext := congrArg String.toList h
  cases a with
  | nothing => rfl
  | whole index =>
    rw [toList_state_whole] at htext
    exact absurd htext (hhead _)
  | layer index y =>
    rw [toList_state_layer] at htext
    exact absurd htext (hhead _)

/-- Different states have different names. -/
theorem state_injective {a b : Shown} (h : a.state = b.state) : a = b := by
  have hlayer (y : Nat) : Number.EndsDigits ("_l_".toList ++ (toString y).toList) :=
    Number.EndsDigits.cons (by decide) _
  have htext := congrArg String.toList h
  cases a with
  | nothing => exact (eq_nothing_of_state_eq h.symm).symm
  | whole i =>
    cases b with
    | nothing => exact eq_nothing_of_state_eq h
    | whole j =>
      rw [toList_state_whole, toList_state_whole] at htext
      obtain ⟨rfl, -⟩ := Number.toString_nat_append_inj Number.endsDigits_nil Number.endsDigits_nil
        (List.append_cancel_left htext)
      rfl
    | layer j z =>
      rw [toList_state_whole, toList_state_layer] at htext
      obtain ⟨-, hnil⟩ := Number.toString_nat_append_inj Number.endsDigits_nil (hlayer z)
        (List.append_cancel_left htext)
      contradiction
  | layer i y =>
    cases b with
    | nothing => exact eq_nothing_of_state_eq h
    | whole j =>
      rw [toList_state_whole, toList_state_layer] at htext
      obtain ⟨-, hnil⟩ := Number.toString_nat_append_inj (hlayer y) Number.endsDigits_nil
        (List.append_cancel_left htext)
      contradiction
    | layer j z =>
      rw [toList_state_layer, toList_state_layer] at htext
      obtain ⟨rfl, hrest⟩ := Number.toString_nat_append_inj (hlayer y) (hlayer z)
        (List.append_cancel_left htext)
      have hrest := List.append_cancel_left hrest
      rw [← List.append_nil (toString y).toList, ← List.append_nil (toString z).toList] at hrest
      obtain ⟨rfl, -⟩ := Number.toString_nat_append_inj Number.endsDigits_nil Number.endsDigits_nil
        hrest
      rfl

end Shown

/-- What is to be shown for a selection: a layer that there is when it has blocks to validate, a
whole structure when the layer is -1, and nothing else. -/
def shown (structures : List (Size × Validation)) (validating : Bool) (index layer : Int) : Shown :=
  if validating = true ∧ 0 ≤ index then
    match structures[index.toNat]? with
    | none => .nothing
    | some (size, v) =>
      if layer = -1 then .whole index.toNat
      else if 0 ≤ layer ∧ layer < size.height ∧ 0 < v.counts[layer.toNat]?.getD 0 then
        .layer index.toNat layer.toNat
      else .nothing
  else .nothing

/-- What can be shown of a structure. -/
def choices (index height : Nat) (v : Validation) : List Shown :=
  .whole index :: (v.layers height).1.map (.layer index)

theorem layers_eq (v : Validation) (height : Nat) : v.layers height =
    ((List.range height).filter v.isFilled, (List.range height).filter (!v.isFilled ·)) := by
  rw [layers, List.partition_eq_filter_filter]
  rfl

theorem isFilled_iff {v : Validation} {y : Nat} :
    v.isFilled y = true ↔ 0 < v.counts[y]?.getD 0 := by
  unfold isFilled
  cases v.counts[y]? <;> simp

section

variable {structures : List (Size × Validation)} {validating : Bool} {index layer : Int}
  {i : Nat} {size : Size} {v : Validation}

theorem mem_choices {height : Nat} {s : Shown} : s ∈ choices i height v ↔
    s = .whole i ∨ ∃ y, (y < height ∧ v.isFilled y = true) ∧ s = .layer i y := by
  simp only [choices, layers_eq, List.mem_cons, List.mem_map, List.mem_filter, List.mem_range]
  exact or_congr_right (exists_congr fun y => and_congr_right fun _ => eq_comm)

/-- What is shown tells the structure of which it is shown. -/
theorem index_eq_of_mem_choices {j height height' : Nat} {v' : Validation} {s : Shown}
    (hi : s ∈ choices i height v) (hj : s ∈ choices j height' v') : i = j := by
  rcases mem_choices.mp hi with rfl | ⟨y, -, rfl⟩ <;> simp [mem_choices] at hj
  · exact hj
  · exact hj.2

theorem state_ne_idle {height : Nat} {s : Shown} (h : s ∈ choices i height v) :
    s.state ≠ idle := by
  intro hidle
  obtain rfl := Shown.eq_nothing_of_state_eq hidle
  simp [mem_choices] at h

/-- Nothing of a structure is shown when another one is selected, or when validation is off. -/
theorem shown_not_mem_choices {height : Nat} (h : ¬ (validating = true ∧ index = i)) :
    shown structures validating index layer ∉ choices i height v := by
  intro hmem
  rw [mem_choices] at hmem
  unfold shown at hmem
  split at hmem
  · rename_i hselected
    split at hmem
    · simp at hmem
    · split_ifs at hmem <;> simp at hmem
      · exact h ⟨hselected.1, by omega⟩
      · exact h ⟨hselected.1, by omega⟩
  · simp at hmem

theorem shown_of_selected (h : structures[i]? = some (size, v)) :
    shown structures true i layer =
      if layer = -1 then .whole i
      else if 0 ≤ layer ∧ layer < size.height ∧ 0 < v.counts[layer.toNat]?.getD 0 then
        .layer i layer.toNat
      else .nothing := by
  unfold shown
  rw [if_pos ⟨rfl, Int.natCast_nonneg i⟩, Int.toNat_natCast, h]

/-- A choice of a structure is shown exactly when the selection is for it. -/
theorem shown_eq_iff (h : structures[i]? = some (size, v)) {s : Shown}
    (hs : s ∈ choices i size.height v) : shown structures validating index layer = s ↔
      validating = true ∧ index = i ∧ layer = s.selection := by
  by_cases hselected : validating = true ∧ index = i
  · obtain ⟨rfl, rfl⟩ := hselected
    rw [shown_of_selected h]
    rcases mem_choices.mp hs with rfl | ⟨y, ⟨hy, hfilled⟩, rfl⟩
    · split_ifs with hwhole <;> simp [Shown.selection, hwhole]
    · rw [isFilled_iff] at hfilled
      constructor
      · intro hshown
        split_ifs at hshown with hwhole hlayer
        obtain ⟨-, rfl⟩ := Shown.layer.inj hshown
        exact ⟨rfl, rfl, by simp only [Shown.selection]; omega⟩
      · rintro ⟨-, -, hlayer⟩
        simp only [Shown.selection] at hlayer
        subst hlayer
        rw [if_neg (by omega), if_pos ⟨by omega, by omega, hfilled⟩, Int.toNat_natCast]
  · constructor
    · rintro rfl
      exact absurd hs (shown_not_mem_choices hselected)
    · rintro ⟨hvalidating, hindex, -⟩
      exact absurd ⟨hvalidating, hindex⟩ hselected

/-- Of a structure something is shown exactly when nothing leads back. -/
theorem shown_mem_choices_iff (h : structures[i]? = some (size, v)) :
    shown structures validating index layer ∈ choices i size.height v ↔
      validating = true ∧ index = i ∧ (∀ y ∈ (v.layers size.height).2, layer ≠ (y : Int)) ∧
        -1 ≤ layer ∧ layer < size.height := by
  constructor
  · intro hmem
    obtain ⟨hvalidating, hindex, hlayer⟩ := (shown_eq_iff h hmem).mp rfl
    refine ⟨hvalidating, hindex, ?_⟩
    generalize shown structures validating index layer = s at hmem hlayer
    rcases mem_choices.mp hmem with rfl | ⟨y, ⟨hy, hfilled⟩, rfl⟩ <;>
      simp only [Shown.selection] at hlayer
    · exact ⟨fun y _ => by omega, by omega, by omega⟩
    · refine ⟨fun z hz heq => ?_, by omega, by omega⟩
      obtain rfl : z = y := by omega
      simp [layers_eq, hfilled] at hz
  · rintro ⟨rfl, rfl, hempty, hlow, hhigh⟩
    rw [shown_of_selected h, mem_choices]
    by_cases hwhole : layer = -1
    · exact .inl (if_pos hwhole)
    · obtain ⟨y, rfl⟩ := Int.eq_ofNat_of_zero_le (show 0 ≤ layer by omega)
      have hfilled : v.isFilled y = true := by
        by_contra hnot
        refine hempty y ?_ rfl
        simp only [layers_eq, List.mem_filter, List.mem_range, Bool.not_eq_eq_eq_not, Bool.not_true]
        exact ⟨by omega, by simpa using hnot⟩
      refine .inr ⟨y, ⟨by omega, hfilled⟩, ?_⟩
      rw [if_neg hwhole, if_pos ⟨by omega, hhigh, isFilled_iff.mp hfilled⟩, Int.toNat_natCast]

end

/-- The variables have a layer of a structure selected, in numbers that are doubles. -/
structure Selects (store : Store) (index layer : Int) : Prop where
  hasIndex : store.HasInt Variable.structureIndex.name index
  hasLayer : store.HasInt Variable.layer.name layer
  index_le : index.natAbs ≤ 2 ^ 53
  layer_le : layer.natAbs ≤ 2 ^ 53

def isOn (store : Store) : Bool :=
  (Expression.variableValue store Variable.validating.name).isTruthy

section

variable {functions : Functions} {store : Store} {index layer : Int}

theorem decides_selects (h : Selects store index layer) {i : Nat} (hi : i ≤ 2 ^ 53) {k : Int}
    (hk : k.natAbs ≤ 2 ^ 53) (target : String) :
    (Transition.when target (selects i k)).Decides functions store
      (isOn store && (decide (index = i) && decide (layer = k))) := by
  have hfaithful : (selects i k).Faithful := by
    refine faithful_chained (by decide) (Variable.faithful_get _) fun e he => ?_
    simp only [List.mem_cons, List.not_mem_nil, or_false] at he
    rcases he with rfl | rfl
    · exact Variable.faithful_compare (by decide) _ (by omega)
    · exact Variable.faithful_compare (by decide) _ hk
  have hdecides : (selects i k).Decides functions store
      (isOn store && [decide (index = i), decide (layer = k)].all id) :=
    decides_chained_and (Expression.decides_name _)
      (.cons (Expression.decides_compare rfl h.hasIndex h.index_le (by omega) rfl)
        (.cons (Expression.decides_compare rfl h.hasLayer h.layer_le hk rfl) .nil))
  simpa using Transition.decides_when hfaithful hdecides target

theorem decides_deselects (h : Selects store index layer) {i height : Nat} (hi : i ≤ 2 ^ 53)
    (hheight : height ≤ 2 ^ 53) {empty : List Nat} (hempty : ∀ y ∈ empty, y ≤ 2 ^ 53)
    (target : String) :
    (Transition.when target (deselects i height empty)).Decides functions store
      (!decide (isOn store = true ∧ index = i ∧ (∀ y ∈ empty, layer ≠ (y : Int)) ∧ -1 ≤ layer ∧
        layer < height)) := by
  have hfaithful : (deselects i height empty).Faithful := by
    refine faithful_chained (by decide) (Variable.faithful_negation _) fun e he => ?_
    simp only [List.mem_append, List.mem_cons, List.mem_map, List.not_mem_nil, or_false] at he
    rcases he with (rfl | ⟨y, hy, rfl⟩) | rfl | rfl
    · exact Variable.faithful_compare (by decide) _ (by omega)
    · exact Variable.faithful_compare (by decide) _ (by have := hempty y hy; omega)
    · exact Variable.faithful_compare (by decide) _ (by omega)
    · exact Variable.faithful_compare (by decide) _ (by omega)
  have hlayers : List.Forall₂ (Expression.Decides functions store)
      (empty.map fun (y : Nat) => Variable.layer.compare .equal y)
      (empty.map fun (y : Nat) => decide (layer = y)) := by
    rw [List.forall₂_map_left_iff, List.forall₂_map_right_iff, List.forall₂_same]
    intro y hy
    exact Expression.decides_compare rfl h.hasLayer h.layer_le (by have := hempty y hy; omega) rfl
  have hdecides : (deselects i height empty).Decides functions store
      (!isOn store || ([decide (index ≠ i)] ++ empty.map (fun (y : Nat) => decide (layer = y)) ++
        [decide (layer < -1), decide ((height : Int) ≤ layer)]).any id) := by
    refine decides_chained_or (Expression.decides_name _).not (List.rel_append (List.rel_append ?_
      hlayers) ?_)
    · exact .cons (Expression.decides_compare rfl h.hasIndex h.index_le (by omega) rfl) .nil
    · exact .cons (Expression.decides_compare rfl h.hasLayer h.layer_le (by omega) rfl)
        (.cons (Expression.decides_compare rfl h.hasLayer h.layer_le (by omega) rfl) .nil)
  have hvalue : (!isOn store || ([decide (index ≠ i)] ++
      empty.map (fun (y : Nat) => decide (layer = y)) ++
        [decide (layer < -1), decide ((height : Int) ≤ layer)]).any id) =
      !decide (isOn store = true ∧ index = i ∧ (∀ y ∈ empty, layer ≠ (y : Int)) ∧ -1 ≤ layer ∧
        layer < height) := by
    rw [Bool.eq_iff_iff]
    simp [-not_and]
  rw [← hvalue]
  exact Transition.decides_when hfaithful hdecides target

end

theorem entrances_eq (i height : Nat) (v : Validation) : entrances i height v =
    (choices i height v).map fun s => .when s.state (selects i s.selection) := by
  rw [entrances, choices, List.map_cons, List.map_map]
  rfl

theorem map_fst_states (space : String) (i height : Nat) (v : Validation) :
    (states space i height v).map Prod.fst = (choices i height v).map Shown.state := by
  rw [states, choices, List.map_cons, List.map_cons, List.map_map, List.map_map]
  rfl

/-- The way back comes first in a state of a structure, and then the ways to its other states. -/
theorem transitions_of_mem_states {space : String} {i height : Nat} {v : Validation} {name : String}
    {state : ControllerState} (h : (name, state) ∈ states space i height v) :
    (∃ s ∈ choices i height v, s.state = name) ∧ state.transitions =
      .when idle (deselects i height (v.layers height).2) ::
        (entrances i height v).filter (fun t => t.target != name) := by
  have hne (s s' : Shown) : (s.state != s'.state) = decide (s ≠ s') := by
    rw [bne, decide_not]
    congr 1
    exact Bool.eq_iff_iff.mpr (by simpa using ⟨Shown.state_injective, congrArg Shown.state⟩)
  have hfilter (s : Shown) : (entrances i height v).filter (fun t => t.target != s.state) =
      ((choices i height v).filter (fun s' => decide (s' ≠ s))).map
        fun s => .when s.state (selects i s.selection) := by
    rw [entrances_eq, List.filter_map]
    congr 1
    exact List.filter_congr fun s' _ => hne s' s
  simp only [states, List.mem_cons, List.mem_map, Prod.mk.injEq] at h
  rcases h with ⟨rfl, rfl⟩ | ⟨y, hy, rfl, rfl⟩
  · refine ⟨⟨.whole i, List.mem_cons_self, rfl⟩, ?_⟩
    have hothers : (choices i height v).filter (fun s => decide (s ≠ .whole i)) =
        (v.layers height).1.map (.layer i) := by
      rw [choices, List.filter_cons_of_neg (by simp), List.filter_eq_self]
      simp
    rw [show wholeState i = (Shown.whole i).state from rfl, hfilter, hothers, List.map_map]
    rfl
  · refine ⟨⟨.layer i y, List.mem_cons_of_mem _ (List.mem_map_of_mem hy), rfl⟩, ?_⟩
    have hothers : (choices i height v).filter (fun s => decide (s ≠ .layer i y)) =
        .whole i :: ((v.layers height).1.filter (· != y)).map (.layer i) := by
      rw [choices, List.filter_cons_of_pos (by simp), List.filter_map]
      congr 2
      refine List.filter_congr fun z _ => ?_
      rw [Bool.eq_iff_iff]
      simp
    rw [show layerState i y = (Shown.layer i y).state from rfl, hfilter, hothers, List.map_cons,
      List.map_map]
    rfl

section

variable {space : String} {structures : List (Size × Validation)} {i : Nat} {size : Size}
  {v : Validation}

theorem mem_numbered {entry : (Size × Validation) × Nat} :
    entry ∈ structures.zipIdx ↔ structures[entry.2]? = some entry.1 :=
  List.mem_zipIdx_iff_getElem?

/-- The first state leads to everything that can be shown. -/
theorem state?_idle (space : String) (structures : List (Size × Validation)) :
    ∃ state, (controller space structures).state? idle = some state ∧
      ∀ t, t ∈ state.transitions ↔ ∃ i size v, structures[i]? = some (size, v) ∧
        t ∈ entrances i size.height v := by
  unfold controller Controller.state?
  dsimp only
  rw [Dictionary.get?_cons, if_pos rfl]
  refine ⟨_, rfl, fun t => ?_⟩
  simp only [List.mem_flatMap, mem_numbered, Prod.exists]
  constructor
  · rintro ⟨size, v, i, h, ht⟩
    exact ⟨i, size, v, h, ht⟩
  · rintro ⟨i, size, v, h, ht⟩
    exact ⟨size, v, i, h, ht⟩

/-- Everything that can be shown of a structure has its state. -/
theorem exists_state? (space : String) (h : structures[i]? = some (size, v)) {s : Shown}
    (hs : s ∈ choices i size.height v) :
    ∃ state, (controller space structures).state? s.state = some state ∧ state.transitions =
      .when idle (deselects i size.height (v.layers size.height).2) ::
        (entrances i size.height v).filter (fun t => t.target != s.state) := by
  have hname : s.state ∈ (controller space structures).states.map Prod.fst := by
    have hown : s.state ∈ (states space i size.height v).map Prod.fst := by
      rw [map_fst_states]
      exact List.mem_map_of_mem hs
    obtain ⟨entry, hentry, hname⟩ := List.mem_map.mp hown
    refine List.mem_map.mpr ⟨entry, List.mem_cons_of_mem _ (List.mem_flatMap.mpr ?_), hname⟩
    exact ⟨((size, v), i), mem_numbered.mpr h, hentry⟩
  obtain ⟨state, hstate, hmem⟩ := Dictionary.exists_get?_of_mem hname
  refine ⟨state, hstate, ?_⟩
  rcases List.mem_cons.mp hmem with hidle | hmem
  · exact absurd (Prod.mk.inj hidle).1 (state_ne_idle hs)
  · simp only [List.mem_flatMap, mem_numbered, Prod.exists] at hmem
    obtain ⟨size', v', j, hj, hmem⟩ := hmem
    obtain ⟨⟨s', hs', heq⟩, htransitions⟩ := transitions_of_mem_states hmem
    obtain rfl := Shown.state_injective heq
    obtain rfl := index_eq_of_mem_choices hs hs'
    rw [h] at hj
    cases hj
    exact htransitions

end

section

variable {functions : Functions} {store : Store} {index layer : Int} {space : String}
  {structures : List (Size × Validation)} {i : Nat} {size : Size} {v : Validation}

/-- An entrance leads to a state exactly when that is the one to be shown. -/
theorem decides_entrance (h : Selects store index layer) (hi : structures[i]? = some (size, v))
    (hcount : structures.length < 2 ^ 53) (hheight : size.height ≤ 2 ^ 53) {t : Transition}
    (ht : t ∈ entrances i size.height v) : t.Decides functions store
      (t.target == (shown structures (isOn store) index layer).state) := by
  rw [entrances_eq] at ht
  obtain ⟨s, hs, rfl⟩ := List.mem_map.mp ht
  have hlt : i < structures.length := (List.getElem?_eq_some_iff.mp hi).1
  have hselection : s.selection.natAbs ≤ 2 ^ 53 := by
    rcases mem_choices.mp hs with rfl | ⟨y, ⟨hy, -⟩, rfl⟩ <;> simp only [Shown.selection] <;> omega
  have hdecides : (Transition.when s.state (selects i s.selection)).Decides functions store _ :=
    decides_selects h (by omega) hselection s.state
  have hvalue : (s.state == (shown structures (isOn store) index layer).state) =
      (isOn store && (decide (index = i) && decide (layer = s.selection))) := by
    rw [Bool.eq_iff_iff, beq_iff_eq]
    simp only [Bool.and_eq_true, decide_eq_true_eq]
    rw [← shown_eq_iff hi hs]
    exact ⟨fun heq => (Shown.state_injective heq).symm, fun heq => heq ▸ rfl⟩
  change Transition.Decides functions store _ (s.state == _)
  rwa [hvalue]

/-- The way back is open exactly when nothing of the structure is to be shown. -/
theorem decides_back (functions : Functions) (h : Selects store index layer)
    (hi : structures[i]? = some (size, v)) (hcount : structures.length < 2 ^ 53)
    (hheight : size.height ≤ 2 ^ 53) :
    (Transition.when idle (deselects i size.height (v.layers size.height).2)).Decides functions
      store (!decide (shown structures (isOn store) index layer ∈ choices i size.height v)) := by
  have hlt : i < structures.length := (List.getElem?_eq_some_iff.mp hi).1
  have hempty : ∀ y ∈ (v.layers size.height).2, y ≤ 2 ^ 53 := by
    intro y hy
    simp only [layers_eq, List.mem_filter, List.mem_range] at hy
    omega
  simp only [shown_mem_choices_iff hi]
  exact decides_deselects h (by omega) hheight hempty idle

/-- Behind the way back, the ways of a state lead to the state that is to be shown. -/
theorem decides_ways (h : Selects store index layer) (hi : structures[i]? = some (size, v))
    (hcount : structures.length < 2 ^ 53) (hheight : size.height ≤ 2 ^ 53) (name : String) :
    ∀ t ∈ (entrances i size.height v).filter (fun t => t.target != name),
      t.Decides functions store
        (t.target == (shown structures (isOn store) index layer).state) :=
  fun _ ht => decides_entrance h hi hcount hheight (List.mem_filter.mp ht).1

theorem mem_targets {s : Shown} {name : String} :
    name ∈ ((entrances i size.height v).filter (fun t => t.target != s.state)).map (·.target) ↔
      (∃ s' ∈ choices i size.height v, s'.state = name) ∧ name ≠ s.state := by
  simp only [entrances_eq, List.mem_map, List.mem_filter, bne_iff_ne]
  constructor
  · rintro ⟨t, ⟨⟨s', hs', rfl⟩, hne⟩, rfl⟩
    exact ⟨⟨s', hs', rfl⟩, hne⟩
  · rintro ⟨⟨s', hs', rfl⟩, hne⟩
    exact ⟨_, ⟨⟨s', hs', rfl⟩, hne⟩, rfl⟩

/-- In the state that is to be shown no guard holds. -/
theorem settles_shown (h : Selects store index layer) (hi : structures[i]? = some (size, v))
    (hcount : structures.length < 2 ^ 53) (hheight : size.height ≤ 2 ^ 53)
    (hshown : shown structures (isOn store) index layer ∈ choices i size.height v) (steps : Nat) :
    (controller space structures).SettlesWithin functions store (steps + 1)
      (shown structures (isOn store) index layer).state
      (shown structures (isOn store) index layer).state 0 := by
  obtain ⟨state, hstate, htransitions⟩ := exists_state? space hi hshown
  have hback := decides_back functions h hi hcount hheight
  rw [decide_eq_true hshown] at hback
  refine .settled hstate ?_ steps 0
  rw [htransitions, Controller.enabled?_cons_of_decides_false _ hback]
  rcases Controller.enabled?_of_decides_target (decides_ways h hi hcount hheight _) with
    ⟨-, hnone⟩ | ⟨hmem, -⟩
  · exact hnone
  · exact absurd rfl (mem_targets.mp hmem).2

theorem shown_cases (structures : List (Size × Validation)) (validating : Bool)
    (index layer : Int) : shown structures validating index layer = .nothing ∨
      ∃ i size v, structures[i]? = some (size, v) ∧
        shown structures validating index layer ∈ choices i size.height v := by
  by_cases hselected : validating = true ∧ 0 ≤ index
  · obtain ⟨rfl, hnat⟩ := hselected
    obtain ⟨i, rfl⟩ := Int.eq_ofNat_of_zero_le hnat
    cases hi : structures[i]? with
    | none =>
      left
      unfold shown
      rw [if_pos ⟨rfl, hnat⟩, Int.toNat_natCast, hi]
    | some entry =>
      obtain ⟨size, v⟩ := entry
      rw [shown_of_selected hi]
      split_ifs with hwhole hlayer
      · exact .inr ⟨i, size, v, hi, mem_choices.mpr (.inl rfl)⟩
      · refine .inr ⟨i, size, v, hi, mem_choices.mpr (.inr ⟨_, ⟨by omega, ?_⟩, rfl⟩)⟩
        exact isFilled_iff.mpr hlayer.2.2
      · exact .inl rfl
  · left
    unfold shown
    rw [if_neg hselected]

/-- From the first state it takes one transition at the most. -/
theorem settles_idle (h : Selects store index layer) (hcount : structures.length < 2 ^ 53)
    (hheights : ∀ s ∈ structures, s.1.height ≤ 2 ^ 53) (steps : Nat) :
    (controller space structures).SettlesWithin functions store (steps + 2) idle
      (shown structures (isOn store) index layer).state 1 := by
  obtain ⟨state, hstate, htransitions⟩ := state?_idle space structures
  have hheight {i : Nat} {size : Size} {v : Validation} (hi : structures[i]? = some (size, v)) :
      size.height ≤ 2 ^ 53 := hheights _ (List.mem_of_getElem? hi)
  have hdecides : ∀ t ∈ state.transitions, t.Decides functions store
      (t.target == (shown structures (isOn store) index layer).state) := by
    intro t ht
    obtain ⟨i, size, v, hi, ht⟩ := (htransitions t).mp ht
    exact decides_entrance h hi hcount (hheight hi) ht
  have htarget {s : Shown} : s.state ∈ state.transitions.map (·.target) ↔
      ∃ i size v, structures[i]? = some (size, v) ∧ s ∈ choices i size.height v := by
    simp only [List.mem_map, htransitions, entrances_eq]
    constructor
    · rintro ⟨t, ⟨i, size, v, hi, s', hs', rfl⟩, heq⟩
      exact ⟨i, size, v, hi, Shown.state_injective heq ▸ hs'⟩
    · rintro ⟨i, size, v, hi, hs⟩
      exact ⟨_, ⟨i, size, v, hi, s, hs, rfl⟩, rfl⟩
  -- Without a way to what is shown, nothing is: all that can be shown has a way from here.
  rcases Controller.enabled?_of_decides_target hdecides with ⟨hmem, hnone⟩ | ⟨hmem, t, ht, htaken⟩
  · rcases shown_cases structures (isOn store) index layer with hnothing | hshown
    · rw [hnothing]
      exact .settled hstate hnone (steps + 1) 1
    · exact absurd (htarget.mpr hshown) hmem
  · obtain ⟨i, size, v, hi, hshown⟩ := htarget.mp hmem
    refine .taken hstate htaken ?_
    rw [ht]
    exact settles_shown h hi hcount (hheight hi) hshown steps

/-- From a state of a structure it takes two transitions at the most. -/
theorem settles_choice (h : Selects store index layer) (hcount : structures.length < 2 ^ 53)
    (hheights : ∀ s ∈ structures, s.1.height ≤ 2 ^ 53) (hi : structures[i]? = some (size, v))
    {s : Shown} (hs : s ∈ choices i size.height v) (steps : Nat) :
    (controller space structures).SettlesWithin functions store (steps + 3) s.state
      (shown structures (isOn store) index layer).state 2 := by
  have hheight : size.height ≤ 2 ^ 53 := hheights _ (List.mem_of_getElem? hi)
  obtain ⟨state, hstate, htransitions⟩ := exists_state? space hi hs
  have hback := decides_back functions h hi hcount hheight
  -- The selection is for this structure, for the state itself or for another, or it is elsewhere.
  by_cases hshown : shown structures (isOn store) index layer ∈ choices i size.height v
  · rw [decide_eq_true hshown] at hback
    have henabled : Controller.enabled? functions store state.transitions = _ :=
      htransitions ▸ Controller.enabled?_cons_of_decides_false _ hback
    rcases Controller.enabled?_of_decides_target (decides_ways h hi hcount hheight s.state) with
      ⟨hmem, hnone⟩ | ⟨-, t, ht, htaken⟩
    · have hself : (shown structures (isOn store) index layer).state = s.state := by
        by_contra hne
        exact hmem (mem_targets.mpr ⟨⟨_, hshown, rfl⟩, hne⟩)
      rw [hself]
      exact .settled hstate (henabled.trans hnone) (steps + 2) 2
    · refine (Controller.SettlesWithin.taken hstate (henabled.trans htaken) ?_).mono
        (show 1 ≤ 2 by decide)
      rw [ht]
      exact settles_shown h hi hcount hheight hshown (steps + 1)
  · rw [decide_eq_false hshown] at hback
    have henabled : Controller.enabled? functions store state.transitions = _ :=
      htransitions ▸ Controller.enabled?_cons_of_decides_true _ hback
    exact .taken hstate henabled (settles_idle h hcount hheights steps)

/-- Repeatedly taking the first transition whose guard holds ends, after two transitions at the most
and from every state, in the state of what is to be shown. Heights are whole numbers of 32 bits, far
below the bound. -/
theorem run_controller (functions : Functions) (space : String)
    (hcount : structures.length < 2 ^ 53) (hheights : ∀ s ∈ structures, s.1.height ≤ 2 ^ 53)
    (h : Selects store index layer) {start : String}
    (hstart : start ∈ (controller space structures).states.map Prod.fst) :
    ∃ path, (controller space structures).run functions store start =
        ⟨start :: path, .settled⟩ ∧ path.length ≤ 2 ∧
      (start :: path).getLast? = some (shown structures (isOn store) index layer).state := by
  unfold Controller.run
  rcases List.mem_cons.mp hstart with hidle | hstart
  · rw [hidle]
    exact (settles_idle h hcount hheights _).mono (show 1 ≤ 2 by decide)
  · obtain ⟨⟨name, state⟩, hmem, rfl⟩ := List.mem_map.mp hstart
    obtain ⟨steps, hsteps⟩ : ∃ steps,
        (controller space structures).states.length + 1 = steps + 3 := by
      have hlength : (controller space structures).states.length = _ + 1 := List.length_cons
      have hpos := List.length_pos_of_mem hmem
      exact ⟨(controller space structures).states.length - 2, by omega⟩
    obtain ⟨⟨⟨size, v⟩, i⟩, hi, hmem⟩ := List.mem_flatMap.mp hmem
    obtain ⟨⟨s, hs, rfl⟩, -⟩ := transitions_of_mem_states hmem
    rw [hsteps]
    exact settles_choice h hcount hheights (mem_numbered.mp hi) hs steps

end

/-- Two structures, of which the first has an empty layer, and a state that is left for another. -/
theorem run_controller_layer :
    let structures : List (Size × Validation) :=
      [(⟨2, 3, 1⟩, ⟨[], [2, 0, 1]⟩), (⟨1, 2, 1⟩, ⟨[], [0, 1]⟩)]
    let store : Store := [("v.hologram.validating", .number 1.0),
      ("v.hologram.structure_index", .number 0.0), ("v.hologram.layer", .number 2.0)]
    structures.length < 2 ^ 53 ∧ (∀ s ∈ structures, s.1.height ≤ 2 ^ 53) ∧ Selects store 0 2 ∧
      "validate_1_l_1" ∈ (controller "hololab" structures).states.map Prod.fst ∧
      ∃ path, (controller "hololab" structures).run [] store "validate_1_l_1" =
          ⟨"validate_1_l_1" :: path, .settled⟩ ∧ path.length ≤ 2 ∧
        ("validate_1_l_1" :: path).getLast? = some "validate_0_l_2" := by
  intro structures store
  have hcount : structures.length < 2 ^ 53 := by decide
  have hheights : ∀ s ∈ structures, s.1.height ≤ 2 ^ 53 := by decide
  have hselects : Selects store 0 2 :=
    ⟨⟨0.0, by decide +kernel, by decide +kernel⟩, ⟨2.0, by decide +kernel, by decide +kernel⟩,
      by decide, by decide⟩
  have hstart : "validate_1_l_1" ∈ (controller "hololab" structures).states.map Prod.fst := by
    decide +kernel
  have hshown : (shown structures (isOn store) 0 2).state = "validate_0_l_2" := by decide +kernel
  refine ⟨hcount, hheights, hselects, hstart, ?_⟩
  rw [← hshown]
  exact run_controller [] "hololab" hcount hheights hselects hstart

end Validation
end Hologram
