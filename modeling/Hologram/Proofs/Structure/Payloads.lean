import Hologram.Proofs.Dictionary
import Hologram.Structure.Saved

/-! Data of entities: no voxel has them twice, and no name occurs twice in those that come from
documents. -/
namespace Hologram

/-- The members of an object that a document writes have different names. -/
theorem Document.distinct_of_toMembers? {depth : Nat} {d : Document} {members : Dictionary Json}
    (h : d.toMembers? depth = some members) : members.Distinct := by
  unfold toMembers? at h
  split at h
  case h_1 found hvalue =>
    cases h
    cases d with
    | object given =>
      simp only [value?] at hvalue
      split_ifs at hvalue
      obtain ⟨values, -, hvalues⟩ := Option.map_eq_some_iff.mp hvalue
      cases hvalues
      exact Dictionary.distinct_ofEntries values
    | array items =>
      simp only [value?] at hvalue
      split_ifs at hvalue
      obtain ⟨values, -, hvalues⟩ := Option.map_eq_some_iff.mp hvalue
      contradiction
    | _ =>
      simp only [value?] at hvalue
      cases hvalue
  case h_2 => contradiction

namespace Payloads

/-- No voxel has two entries. -/
theorem lookup_of_mem {payloads : Payloads} {entry : Nat × Option (Dictionary Json)}
    (h : entry ∈ payloads.entries) : payloads.entries.lookup entry.1 = some entry.2 := by
  obtain ⟨before, after, hentries⟩ := List.append_of_mem h
  have hascending := hentries ▸ payloads.ascending
  refine List.lookup_eq_some_iff.mpr ⟨before, after, hentries, fun other hother => ?_⟩
  have hless := (List.pairwise_append.mp hascending).2.2 other hother entry List.mem_cons_self
  simpa using Nat.ne_of_gt hless

theorem mem_of_mem_ofEntries {entries : List (Nat × Option (Dictionary Json))}
    {entry : Nat × Option (Dictionary Json)} (h : entry ∈ (ofEntries entries).entries) :
    entry ∈ entries := by
  induction entries with
  | nil => exact h
  | cons first rest ih =>
    rcases mem_of_mem_add h with rfl | h
    · exact List.mem_cons_self
    · exact List.mem_cons_of_mem _ (ih h)

/-- What a list is mapped to comes from its items. -/
theorem exists_of_mem_mapM {α β : Type} {f : α → Option β} {items : List α} {results : List β}
    (h : items.mapM f = some results) {b : β} (hb : b ∈ results) : ∃ a ∈ items, f a = some b := by
  induction items generalizing results with
  | nil =>
    rw [List.mapM_nil] at h
    cases h
    contradiction
  | cons item rest ih =>
    rw [List.mapM_cons] at h
    obtain ⟨first, hfirst, h⟩ := Option.bind_eq_some_iff.mp h
    obtain ⟨more, hmore, h⟩ := Option.bind_eq_some_iff.mp h
    cases h
    rcases List.mem_cons.mp hb with rfl | hb
    · exact ⟨item, List.mem_cons_self, hfirst⟩
    · obtain ⟨a, ha, hab⟩ := ih hmore hb
      exact ⟨a, List.mem_cons_of_mem _ ha, hab⟩

theorem distinct_of_entryOfDocument? {depth : Nat} {d : Document}
    {data : Dictionary Json} (h : entryOfDocument? depth d = some (some data)) :
    data.Distinct := by
  obtain ⟨record, -, h⟩ := Option.bind_eq_some_iff.mp h
  unfold Document.optional? at h
  split at h
  case h_1 value _ =>
    unfold Document.toNullable? at h
    split at h
    · cases h
    · obtain ⟨members, hmembers, h⟩ := Option.map_eq_some_iff.mp h
      cases h
      exact Document.distinct_of_toMembers? hmembers
  case h_2 => cases h

/-- In the data that a document gives to a voxel no name occurs twice. -/
theorem distinct_of_ofDocument? {depth : Nat} {d : Document} {payloads : Payloads}
    (h : ofDocument? depth d = some payloads) :
    ∀ entry ∈ payloads.entries, ∀ data, entry.2 = some data → data.Distinct := by
  cases d with
  | object members =>
    obtain ⟨entries, hentries, h⟩ := Option.bind_eq_some_iff.mp h
    cases h
    intro entry hentry data hdata
    obtain ⟨member, -, hmember⟩ := exists_of_mem_mapM hentries (mem_of_mem_ofEntries hentry)
    obtain ⟨offset, -, hmember⟩ := Option.bind_eq_some_iff.mp hmember
    obtain ⟨found, hfound, hmember⟩ := Option.bind_eq_some_iff.mp hmember
    cases hmember
    cases hdata
    exact distinct_of_entryOfDocument? hfound
  | _ => contradiction

end Payloads

/-- In the data of entities of a structure that is read no name occurs twice. -/
theorem SavedStructure.distinct_of_ofDocument? {depth : Nat} {d : Document} {s : SavedStructure}
    (h : ofDocument? depth d = some s) :
    ∀ entry ∈ s.payloads.entries, ∀ data, entry.2 = some data → data.Distinct := by
  obtain ⟨record, -, h⟩ := Option.bind_eq_some_iff.mp h
  obtain ⟨name, -, h⟩ := Option.bind_eq_some_iff.mp h
  obtain ⟨size, -, h⟩ := Option.bind_eq_some_iff.mp h
  obtain ⟨palette, -, h⟩ := Option.bind_eq_some_iff.mp h
  obtain ⟨layers, -, h⟩ := Option.bind_eq_some_iff.mp h
  obtain ⟨payloads, hpayloads, h⟩ := Option.bind_eq_some_iff.mp h
  cases h
  unfold Document.optional? at hpayloads
  split at hpayloads
  · exact Payloads.distinct_of_ofDocument? hpayloads
  · cases hpayloads
    intro entry hentry
    contradiction

end Hologram
