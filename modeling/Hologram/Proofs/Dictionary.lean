import Hologram.Dictionary
import Mathlib.Data.List.Nodup

/-! Dictionaries in which no name occurs twice: what is left of them when names are taken away, and
that they are told apart, up to their order, by the values that they give. -/
namespace Hologram.Dictionary

variable {α β : Type}

/-- No name occurs twice. -/
def Distinct (d : Dictionary α) : Prop :=
  (d.map Prod.fst).Nodup

theorem Distinct.perm {d e : Dictionary α} (h : Distinct d) (p : d.Perm e) : Distinct e :=
  (p.map Prod.fst).nodup_iff.mp h

theorem Distinct.filter {d : Dictionary α} (h : Distinct d) (keep : String × α → Bool) :
    Distinct (List.filter keep d) :=
  h.sublist (List.filter_sublist.map Prod.fst)

/-- Two entries under one name are one entry. -/
theorem Distinct.eq_of_mem {d : Dictionary α} (h : Distinct d) {a b : String × α} (ha : a ∈ d)
    (hb : b ∈ d) (hab : a.1 = b.1) : a = b :=
  List.inj_on_of_nodup_map h ha hb hab

theorem mem_of_mem_insert {d : Dictionary α} {name : String} {value : α} {entry : String × α}
    (h : entry ∈ d.insert name value) : entry.1 = name ∨ entry ∈ d := by
  fun_induction insert d name value with
  | case1 => exact .inl (congrArg Prod.fst (List.mem_singleton.mp h))
  | case2 =>
    rcases List.mem_cons.mp h with rfl | h
    · exact .inl rfl
    · exact .inr (List.mem_cons_of_mem _ h)
  | case3 other old rest _ _ _ ih =>
    rcases List.mem_cons.mp h with rfl | h
    · exact .inr List.mem_cons_self
    · exact (ih h).imp_right (List.mem_cons_of_mem _)

/-- An insertion repeats no name. -/
theorem Distinct.insert {d : Dictionary α} (h : Distinct d) (name : String) (value : α) :
    Distinct (d.insert name value) := by
  induction d with
  | nil => simp [Distinct, Dictionary.insert]
  | cons entry rest ih =>
    obtain ⟨other, old⟩ := entry
    obtain ⟨hother, hrest⟩ := List.nodup_cons.mp h
    by_cases ho : other = name
    · rw [Dictionary.insert, if_pos ho]
      exact h
    · rw [Dictionary.insert, if_neg ho]
      refine List.nodup_cons.mpr ⟨fun hmem => ?_, ih hrest⟩
      obtain ⟨entry, hentry, he⟩ := List.mem_map.mp hmem
      rcases mem_of_mem_insert hentry with hn | hr
      · exact ho (he.symm.trans hn)
      · exact hother (List.mem_map.mpr ⟨entry, hr, he⟩)

/-- No name occurs twice in the dictionary of a list of entries. -/
theorem distinct_ofEntries (entries : List (String × α)) : Distinct (ofEntries entries) := by
  have h (d : Dictionary α) (hd : Distinct d) :
      Distinct (entries.foldl (fun d entry => d.insert entry.1 entry.2) d) := by
    induction entries generalizing d with
    | nil => exact hd
    | cons entry rest ih => exact ih (d.insert entry.1 entry.2) (hd.insert entry.1 entry.2)
  exact h [] List.nodup_nil

/-- Taking a name away leaves the other entries, in some order. -/
theorem erase_perm {d : Dictionary α} (h : Distinct d) (name : String) :
    (d.erase name).Perm (List.filter (fun entry => entry.1 ≠ name) d) := by
  induction d with
  | nil => rfl
  | cons entry rest ih =>
    obtain ⟨other, value⟩ := entry
    obtain ⟨hother, hrest⟩ := List.nodup_cons.mp h
    by_cases ho : other = name
    · subst ho
      have hkeep : List.filter (fun entry => entry.1 ≠ other) rest = rest := by
        refine List.filter_eq_self.mpr fun entry hentry => ?_
        have hne : entry.1 ≠ other := fun he => hother (List.mem_map.mpr ⟨entry, hentry, he⟩)
        simpa using hne
      have hmoved : (erase ((other, value) :: rest) other).Perm rest := by
        unfold erase
        rw [if_pos rfl]
        cases hlast : rest.getLast? with
        | none => 
          rw [List.getLast?_eq_none_iff.mp hlast]
        | some last =>
          obtain ⟨init, rfl⟩ := List.getLast?_eq_some_iff.mp hlast
          simpa using (List.perm_append_singleton last init).symm
      rw [List.filter_cons_of_neg (by simp), hkeep]
      exact hmoved
    · rw [erase, if_neg ho, List.filter_cons_of_pos (by simpa using ho)]
      exact (ih hrest).cons _

/-- Taking several names away leaves the entries of the others, in some order. -/
theorem foldl_erase_perm {d : Dictionary α} (h : Distinct d) (names : List String) :
    (names.foldl erase d).Perm (List.filter (fun entry => entry.1 ∉ names) d) := by
  induction names generalizing d with
  | nil => simp
  | cons name names ih =>
    have herase := erase_perm h name
    have hrest := ih ((h.filter _).perm herase.symm)
    refine hrest.trans ((herase.filter _).trans ?_)
    rw [List.filter_filter]
    refine List.Perm.of_eq (List.filter_congr fun entry _ => ?_)
    simp [List.mem_cons, not_or, Bool.and_comm]

/-- Sorting forgets the order that the entries had. -/
theorem sorted_eq_of_perm {d e : Dictionary α} (h : Distinct d) (p : d.Perm e) :
    d.sorted = e.sorted := by
  have hperm : d.sorted.Perm e.sorted := (sorted_perm d).trans (p.trans (sorted_perm e).symm)
  have hsorted (d : Dictionary α) : d.sorted.Pairwise (fun a b => decide (a.1 ≤ b.1) = true) := by
    refine List.pairwise_mergeSort (fun a b c hab hbc => ?_) (fun a b => ?_) d
    · simp only [decide_eq_true_eq] at *
      exact String.le_trans hab hbc
    · simpa using String.le_total a.1 b.1
  refine hperm.eq_of_pairwise (fun a b ha hb hab hba => ?_) (hsorted d) (hsorted e)
  simp only [decide_eq_true_eq] at hab hba
  have ha : a ∈ d := (sorted_perm d).mem_iff.mp ha
  have hb : b ∈ d := p.mem_iff.mpr ((sorted_perm e).mem_iff.mp hb)
  exact h.eq_of_mem ha hb (String.le_antisymm hab hba)

/-- A name that is there has the value of one of its entries. -/
theorem exists_get?_of_mem {d : Dictionary α} {name : String} (h : name ∈ d.map Prod.fst) :
    ∃ value, d.get? name = some value ∧ (name, value) ∈ d := by
  induction d with
  | nil => contradiction
  | cons entry rest ih =>
    obtain ⟨other, value⟩ := entry
    by_cases ho : other = name
    · subst ho
      exact ⟨value, by simp [get?_cons], List.mem_cons_self⟩
    · obtain ⟨found, hfound, hmem⟩ := ih ((List.mem_cons.mp h).resolve_left (Ne.symm ho))
      exact ⟨found, by rw [get?_cons, if_neg ho, hfound], List.mem_cons_of_mem _ hmem⟩

theorem mem_map_fst_dropWhile {entries : List (String × α)} {name other : String}
    (h : name ≠ other) : name ∈ (entries.dropWhile fun entry => entry.1 == other).map Prod.fst ↔
      name ∈ entries.map Prod.fst := by
  induction entries with
  | nil => rfl
  | cons entry rest ih =>
    by_cases he : entry.1 = other
    · rw [List.dropWhile_cons_of_pos (by simpa using he), ih, List.map_cons, List.mem_cons, he]
      simp [h]
    · rw [List.dropWhile_cons_of_neg (by simpa using he)]

/-- Collecting entries keeps their names. -/
theorem mem_map_fst_collected {entries : List (String × α)} {name : String} :
    name ∈ (collected entries).map Prod.fst ↔ name ∈ entries.map Prod.fst := by
  have hfold : ∀ l : List (String × α), name ∈ (l.foldr
      (fun entry rest => entry :: rest.dropWhile fun other => other.1 == entry.1) []).map
        Prod.fst ↔ name ∈ l.map Prod.fst := by
    intro l
    induction l with
    | nil => rfl
    | cons entry rest ih =>
      rw [List.foldr_cons, List.map_cons, List.map_cons, List.mem_cons, List.mem_cons, ← ih]
      by_cases hname : name = entry.1
      · simp [hname]
      · exact or_congr_right (mem_map_fst_dropWhile hname)
  rw [collected, hfold, List.Perm.mem_iff ((sorted_perm entries.reverse).map Prod.fst),
    List.map_reverse, List.mem_reverse]

theorem get?_map (f : α → β) (d : Dictionary α) (name : String) :
    get? (d.map fun entry => (entry.1, f entry.2)) name = (d.get? name).map f := by
  induction d with
  | nil => rfl
  | cons entry rest ih =>
    rw [List.map_cons, get?_cons, get?_cons, ih]
    split_ifs <;> rfl

theorem Distinct.map {d : Dictionary α} (h : Distinct d) (f : α → β) :
    Distinct (d.map fun entry => (entry.1, f entry.2)) := by
  rw [Distinct, List.map_map]
  exact h

theorem Distinct.get?_eq_some_iff {d : Dictionary α} (h : Distinct d) {name : String} {value : α} :
    d.get? name = some value ↔ (name, value) ∈ d := by
  induction d with
  | nil => simp
  | cons entry rest ih =>
    obtain ⟨other, old⟩ := entry
    obtain ⟨hother, hrest⟩ := List.nodup_cons.mp h
    rw [get?_cons, List.mem_cons, ← ih hrest]
    by_cases ho : other = name
    · subst ho
      have hnone : (other, value) ∉ rest := fun hmem =>
        hother (List.mem_map.mpr ⟨_, hmem, rfl⟩)
      rw [← ih hrest] at hnone
      simp [hnone, eq_comm]
    · simp [ho, Ne.symm ho]

/-- Two dictionaries have the same entries when they give the same values. -/
theorem perm_iff_get? {d e : Dictionary α} (hd : Distinct d) (he : Distinct e) :
    d.Perm e ↔ ∀ name, d.get? name = e.get? name := by
  have hnodup {d : Dictionary α} (hd : Distinct d) : List.Nodup d := List.Nodup.of_map _ hd
  rw [List.perm_ext_iff_of_nodup (hnodup hd) (hnodup he)]
  constructor
  · intro h name
    ext value
    rw [hd.get?_eq_some_iff, he.get?_eq_some_iff, h]
  · rintro h ⟨name, value⟩
    rw [← hd.get?_eq_some_iff, ← he.get?_eq_some_iff, h]

theorem sorted_eq_iff {d e : Dictionary α} (hd : Distinct d) (he : Distinct e) :
    d.sorted = e.sorted ↔ ∀ name, d.get? name = e.get? name := by
  rw [← perm_iff_get? hd he]
  constructor
  · intro h
    exact (sorted_perm d).symm.trans (h ▸ sorted_perm e)
  · exact sorted_eq_of_perm hd

end Hologram.Dictionary
