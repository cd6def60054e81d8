import Hologram.Script.Lookup
import Mathlib.Data.List.Induction
import Mathlib.Tactic.ByContra
import Mathlib.Tactic.SplitIfs

/-! The entries of a look-up table: in ascending order each key is found where its first entry was,
and halving leads every index to the part in which its key can be. -/
namespace Hologram.Script.Lookup

/-- Every key is greater than the keys before it. -/
def Ascends (entries : Lookup) : Prop :=
  entries.Pairwise fun a b => a.1 < b.1

/-- The first entry under an index. -/
def find? (entries : Lookup) (index : Int) : Option (Int × String) :=
  List.find? (fun entry => decide (entry.1 = index)) entries

/-- The part of a table that the comparisons with the middle keys lead an index to, when chains hold
at most `threshold` entries, and one at the least. -/
def leaf (threshold : Nat) (index : Int) (entries : Lookup) : Lookup :=
  if entries.length ≤ max threshold 1 then entries
  else
    let middle := entries.length / 2
    let boundary := ((entries.drop middle).head?.map (·.1)).getD 0
    if index < boundary then leaf threshold index (entries.take middle)
    else leaf threshold index (entries.drop middle)
  termination_by entries.length
  decreasing_by all_goals (simp; omega)

/-- The value text for an index: of the first entry under it, else of the entry with the greatest
key in the part that the index is led to. -/
def selected? (threshold : Nat) (index : Int) (entries : Lookup) : Option String :=
  match entries.find? index with
  | some entry => some entry.2
  | none => ((leaf threshold index entries.ascending).maxOn? Prod.fst).map (·.2)

/-- The entries without those whose key the entry before has as well. -/
def deduped (entries : Lookup) : Lookup :=
  entries.foldr (fun entry rest => entry :: rest.dropWhile fun other => other.1 == entry.1) []

theorem ascending_eq (entries : Lookup) :
    entries.ascending = deduped (entries.mergeSort fun a b => a.1 ≤ b.1) := rfl

theorem pairwise_sorted (entries : Lookup) :
    (entries.mergeSort fun a b => a.1 ≤ b.1).Pairwise fun a b => a.1 ≤ b.1 := by
  have hsorted : (entries.mergeSort fun a b => a.1 ≤ b.1).Pairwise
      fun a b => decide (a.1 ≤ b.1) = true := by
    refine List.pairwise_mergeSort (fun a b c hab hbc => ?_) (fun a b => ?_) entries
    · simp only [decide_eq_true_eq] at *
      omega
    · simp only [Bool.or_eq_true, decide_eq_true_eq]
      omega
  exact hsorted.imp fun h => by simpa using h

theorem deduped_sublist (entries : Lookup) : (deduped entries).Sublist entries := by
  induction entries with
  | nil => exact .slnil
  | cons entry rest ih => exact .cons_cons _ ((List.dropWhile_sublist _).trans ih)

theorem mem_of_mem_ascending {entries : Lookup} {entry : Int × String}
    (h : entry ∈ entries.ascending) : entry ∈ entries :=
  List.mem_mergeSort.mp ((deduped_sublist _).subset h)

theorem length_ascending_le (entries : Lookup) : entries.ascending.length ≤ entries.length :=
  Nat.le_trans (deduped_sublist _).length_le (Nat.le_of_eq (List.length_mergeSort _))

/-- Of equal keys in a row only the first entry stays. -/
theorem ascends_deduped {entries : Lookup} (h : entries.Pairwise fun a b => a.1 ≤ b.1) :
    (deduped entries).Ascends := by
  induction entries with
  | nil => exact .nil
  | cons entry rest ih =>
    obtain ⟨hentry, hrest⟩ := List.pairwise_cons.mp h
    have hascends := ih hrest
    refine List.pairwise_cons.mpr ⟨fun other hother => ?_,
      hascends.sublist (List.dropWhile_sublist _)⟩
    have hle (other : Int × String) (hmem : other ∈ deduped rest) : entry.1 ≤ other.1 :=
      hentry other ((deduped_sublist rest).subset hmem)
    change other ∈ (deduped rest).dropWhile _ at hother
    -- The first entry that stays has another key, and all that come after it have greater ones.
    cases hdrop : (deduped rest).dropWhile fun other => other.1 == entry.1 with
    | nil =>
      rw [hdrop] at hother
      contradiction
    | cons first others =>
      have hfirst := List.head?_dropWhile_not (fun other => other.1 == entry.1) (deduped rest)
      have hsublist := List.dropWhile_sublist (l := deduped rest) fun other => other.1 == entry.1
      rw [hdrop] at hfirst hother hsublist
      have hne : first.1 ≠ entry.1 := by simpa using hfirst
      have hlt : entry.1 < first.1 := by
        have := hle first (hsublist.subset List.mem_cons_self)
        omega
      rcases List.mem_cons.mp hother with rfl | hmem
      · exact hlt
      · have := (List.pairwise_cons.mp (hascends.sublist hsublist)).1 other hmem
        omega

theorem ascends_ascending (entries : Lookup) : entries.ascending.Ascends :=
  ascends_deduped (pairwise_sorted entries)

theorem find?_dropWhile {entries : Lookup} {key index : Int} (h : key ≠ index) :
    find? (entries.dropWhile fun other => other.1 == key) index = entries.find? index := by
  induction entries with
  | nil => rfl
  | cons entry rest ih =>
    by_cases hkey : entry.1 = key
    · rw [List.dropWhile_cons_of_pos (by simpa using hkey), ih]
      simp [find?, show entry.1 ≠ index from hkey ▸ h]
    · rw [List.dropWhile_cons_of_neg (by simpa using hkey)]

theorem find?_deduped (entries : Lookup) (index : Int) :
    (deduped entries).find? index = entries.find? index := by
  induction entries with
  | nil => rfl
  | cons entry rest ih =>
    change List.find? _ (entry :: (deduped rest).dropWhile _) = _
    by_cases hentry : entry.1 = index
    · simp [find?, hentry]
    · have hdrop : find? ((deduped rest).dropWhile fun other => other.1 == entry.1) index =
          find? rest index := (find?_dropWhile hentry).trans ih
      simpa [find?, hentry] using hdrop

/-- Sorting keeps the order of entries under one key. -/
theorem filter_sorted (entries : Lookup) (index : Int) :
    (entries.mergeSort fun a b => a.1 ≤ b.1).filter (fun entry => decide (entry.1 = index)) =
      List.filter (fun entry => decide (entry.1 = index)) entries := by
  have hequal : (List.filter (fun entry => decide (entry.1 = index)) entries).Pairwise
      fun a b => decide (a.1 ≤ b.1) = true := by
    refine List.pairwise_of_forall_mem_list fun a ha b hb => ?_
    have ha := (List.mem_filter.mp ha).2
    have hb := (List.mem_filter.mp hb).2
    simp only [decide_eq_true_eq] at *
    omega
  have hsublist := (List.sublist_mergeSort
    (fun a b c hab hbc => by simp only [decide_eq_true_eq] at *; omega)
    (fun a b => by simp only [Bool.or_eq_true, decide_eq_true_eq]; omega) hequal
    List.filter_sublist).filter fun entry => decide (entry.1 = index)
  rw [List.filter_filter] at hsublist
  simp only [Bool.and_self] at hsublist
  exact (hsublist.eq_of_length
    ((List.mergeSort_perm entries _).filter _).length_eq.symm).symm

/-- In ascending order the first entry under an index is the one that was first. -/
theorem find?_ascending (entries : Lookup) (index : Int) :
    entries.ascending.find? index = entries.find? index := by
  rw [ascending_eq, find?_deduped, find?, find?, ← List.head?_filter, ← List.head?_filter,
    filter_sorted]

theorem ascending_ne_nil {entries : Lookup} (h : entries ≠ []) : entries.ascending ≠ [] := by
  obtain ⟨entry, rest, rfl⟩ := List.exists_cons_of_ne_nil h
  intro hnil
  have hfind := find?_ascending (entry :: rest) entry.1
  rw [hnil] at hfind
  simp [find?] at hfind

theorem Ascends.deduped_eq {entries : Lookup} (h : entries.Ascends) :
    deduped entries = entries := by
  induction entries with
  | nil => rfl
  | cons entry rest ih =>
    obtain ⟨hentry, hrest⟩ := List.pairwise_cons.mp h
    change entry :: (deduped rest).dropWhile _ = _
    rw [ih hrest]
    cases rest with
    | nil => rfl
    | cons first others =>
      have hlt := hentry first List.mem_cons_self
      rw [List.dropWhile_cons_of_neg (by simp; omega)]

theorem Ascends.ascending_eq_self {entries : Lookup} (h : entries.Ascends) :
    entries.ascending = entries := by
  have hsorted : entries.Pairwise fun a b => decide (a.1 ≤ b.1) = true :=
    h.imp fun hlt => by simp only [decide_eq_true_eq]; omega
  rw [ascending_eq, List.mergeSort_of_pairwise hsorted, h.deduped_eq]

/-- The positions in a list ascend. -/
theorem ascends_numbered (values : List String) (first : Nat) :
    Ascends ((values.zipIdx first).map fun (value, key) => ((key : Int), value)) := by
  induction values generalizing first with
  | nil => exact .nil
  | cons value rest ih =>
    refine List.pairwise_cons.mpr ⟨fun entry hentry => ?_, ih (first + 1)⟩
    obtain ⟨⟨value', key⟩, hmem, rfl⟩ := List.mem_map.mp hentry
    have hkey := (List.mem_zipIdx hmem).1
    simp only
    omega

theorem leaf_sublist (threshold : Nat) (index : Int) (entries : Lookup) :
    (leaf threshold index entries).Sublist entries := by
  fun_induction leaf threshold index entries with
  | case1 => exact .refl _
  | case2 _ _ _ _ _ ih => exact ih.trans (List.take_sublist ..)
  | case3 _ _ _ _ _ ih => exact ih.trans (List.drop_sublist ..)

theorem find?_eq_none {entries : Lookup} {index : Int}
    (h : ∀ entry ∈ entries, entry.1 ≠ index) : entries.find? index = none := by
  rw [find?, List.find?_eq_none]
  exact fun entry hentry => by simpa using h entry hentry

theorem find?_append (first second : Lookup) (index : Int) :
    find? (first ++ second) index = (first.find? index).or (second.find? index) :=
  List.find?_append

/-- Of two halves of ascending entries, the comparison with the first key of the second leads to the
one in which an index can be. -/
theorem find?_half {first second : Lookup} (h : Ascends (first ++ second)) (hne : second ≠ [])
    (index : Int) : find? (first ++ second) index =
      if index < (second.head?.map (·.1)).getD 0 then first.find? index
      else second.find? index := by
  obtain ⟨-, hsecond, hbetween⟩ := List.pairwise_append.mp h
  obtain ⟨boundary, rest, rfl⟩ := List.exists_cons_of_ne_nil hne
  have hboundary : ((boundary :: rest).head?.map (·.1)).getD 0 = boundary.1 := rfl
  rw [find?_append]
  split_ifs with hlt <;> rw [hboundary] at hlt
  · have hnone : find? (boundary :: rest) index = none := by
      refine find?_eq_none fun entry hentry => ?_
      rcases List.mem_cons.mp hentry with rfl | hmem
      · omega
      · have := (List.pairwise_cons.mp hsecond).1 entry hmem
        omega
    rw [hnone, Option.or_none]
  · have hnone : first.find? index = none := by
      refine find?_eq_none fun entry hentry => ?_
      have := hbetween entry hentry boundary List.mem_cons_self
      omega
    rw [hnone, Option.none_or]

theorem find?_leaf {entries : Lookup} (h : entries.Ascends) (threshold : Nat) (index : Int) :
    (leaf threshold index entries).find? index = entries.find? index := by
  have hhalf (entries : Lookup) (h : entries.Ascends)
      (hlength : ¬ entries.length ≤ max threshold 1) :
      entries.find? index =
        if index < ((entries.drop (entries.length / 2)).head?.map (·.1)).getD 0 then
          find? (entries.take (entries.length / 2)) index
        else find? (entries.drop (entries.length / 2)) index := by
    have hne : entries.drop (entries.length / 2) ≠ [] := by
      intro hnil
      rw [List.drop_eq_nil_iff] at hnil
      omega
    have hsplit := List.take_append_drop (entries.length / 2) entries
    rw [← find?_half (by rwa [hsplit]) hne, hsplit]
  fun_induction leaf threshold index entries with
  | case1 => rfl
  | case2 entries hlength middle boundary hlt ih =>
    rw [ih (h.sublist (List.take_sublist ..)), hhalf entries h hlength, if_pos hlt]
  | case3 entries hlength middle boundary hlt ih =>
    rw [ih (h.sublist (List.drop_sublist ..)), hhalf entries h hlength, if_neg hlt]

theorem leaf_ne_nil {threshold : Nat} {index : Int} {entries : Lookup} (h : entries ≠ []) :
    leaf threshold index entries ≠ [] := by
  fun_induction leaf threshold index entries with
  | case1 => exact h
  | case2 entries hlength middle boundary _ ih =>
    have hlower : entries.take middle ≠ [] := by
      rw [Ne, List.take_eq_nil_iff, not_or]
      exact ⟨by omega, h⟩
    exact ih hlower
  | case3 entries hlength middle boundary _ ih =>
    have hupper : entries.drop middle ≠ [] := by
      rw [Ne, List.drop_eq_nil_iff]
      omega
    exact ih hupper

/-- In ascending order the last entry has the greatest key. -/
theorem Ascends.maxOn?_eq {entries : Lookup} (h : entries.Ascends) :
    entries.maxOn? Prod.fst = entries.getLast? := by
  induction entries using List.reverseRecOn with
  | nil => rfl
  | append_singleton rest last ih =>
    obtain ⟨hrest, -, hlast⟩ := List.pairwise_append.mp h
    rw [List.maxOn?_append, List.maxOn?_singleton, ih hrest, List.getLast?_concat]
    cases hmax : rest.getLast? with
    | none => rfl
    | some entry =>
      have hlt := hlast entry (List.mem_of_getLast? hmax) last List.mem_cons_self
      rw [Option.merge_some_some, maxOn_eq_right (by omega)]

/-- What is selected for an index that is no key is the last entry of its part. -/
theorem selected?_eq (threshold : Nat) (index : Int) (entries : Lookup) :
    entries.selected? threshold index = match entries.find? index with
      | some entry => some entry.2
      | none => (leaf threshold index entries.ascending).getLast?.map (·.2) := by
  have hleaf := (ascends_ascending entries).sublist (leaf_sublist threshold index _)
  rw [selected?, Ascends.maxOn?_eq hleaf]

/-- Only a table without entries has nothing to select. -/
theorem selected?_eq_none_iff {threshold : Nat} {index : Int} {entries : Lookup} :
    entries.selected? threshold index = none ↔ entries = [] := by
  constructor
  · intro h
    by_contra hne
    rw [selected?_eq] at h
    split at h
    · contradiction
    · rw [Option.map_eq_none_iff, List.getLast?_eq_none_iff] at h
      exact leaf_ne_nil (ascending_ne_nil hne) h
  · rintro rfl
    have hascending : ascending [] = [] := by simp [ascending]
    have hleaf : leaf threshold index [] = [] := by rw [leaf]; simp
    simp [selected?, find?, hascending, hleaf]

end Hologram.Script.Lookup
