import Hologram.Proofs.Json.Canonical
import Hologram.Structure.Block

/-! What the key of a block tells of the block, and what it does not depend on. -/
namespace Hologram

namespace Block

/-- The text of a key begins with the name. -/
theorem toList_key (b : Block) :
    ∃ rest, b.key.toList =
      "\x7b\"name\":".toList ++ ((Json.stringText b.name).toList ++ rest) := by
  obtain ⟨more, hmore⟩ : ∃ more : List (String × String), b.members.map
      (fun member => (member.1, member.2.canonicalText)) =
        ("name", Json.stringText b.name) :: more := ⟨_, rfl⟩
  have hname : Json.stringText "name" = "\"name\"" := by decide +kernel
  rw [key, hmore, Json.objectText, Json.memberTexts, List.map_cons]
  dsimp only
  rw [hname]
  cases hrest : more.map (fun member => Json.stringText member.1 ++ ":" ++ member.2) with
  | nil => exact ⟨"\x7d".toList, by simp⟩
  | cons first others =>
    exact ⟨",".toList ++ ((",".intercalate (first :: others)).toList ++ "\x7d".toList), by simp⟩

/-- Blocks of one key have one name. -/
theorem name_eq_of_key_eq {a b : Block} (h : a.key = b.key) : a.name = b.name := by
  obtain ⟨x, hx⟩ := toList_key a
  obtain ⟨y, hy⟩ := toList_key b
  rw [h, hy] at hx
  exact (Json.stringText_inj (List.append_cancel_left hx)).1.symm

/-- Blocks are equal when their keys are. -/
theorem beq_iff_key_eq {a b : Block} : (a == b) = true ↔ a.key = b.key := by
  change (a.name == b.name && a.key == b.key) = true ↔ _
  rw [Bool.and_eq_true, beq_iff_eq, beq_iff_eq]
  exact ⟨And.right, fun h => ⟨name_eq_of_key_eq h, h⟩⟩

instance : ReflBEq Block where
  rfl := beq_iff_key_eq.mpr rfl

instance : EquivBEq Block where
  symm h := beq_iff_key_eq.mpr (beq_iff_key_eq.mp h).symm
  trans h h' := beq_iff_key_eq.mpr ((beq_iff_key_eq.mp h).trans (beq_iff_key_eq.mp h'))

theorem map_key_eq_of_beq {a b : Option Block} (h : (a == b) = true) : a.map key = b.map key := by
  cases a <;> cases b <;> simp_all [beq_iff_key_eq]

/-- The order of the data has no part in the key. -/
theorem key_withEntityData_of_perm (b : Block) {d e : Dictionary Json} (h : d.Distinct)
    (p : d.Perm e) : (b.withEntityData d).key = (b.withEntityData e).key := by
  have htext := Json.canonicalText_object_of_perm h p
  simp only [key, members, withEntityData, Option.map_some, Option.toList_some, List.map_append,
    List.map_cons, List.map_nil, htext]
  rfl

/-- What comes from a document without numbers that have a point: maps, at any depth. -/
def Plain (b : Block) : Prop :=
  (Json.object b.states).Plain ∧ ∀ data ∈ b.entityData, (Json.object data).Plain

theorem plain_of_mem_members {b : Block} (h : b.Plain) : ∀ member ∈ b.members, member.2.Plain := by
  intro member hmember
  simp only [members, List.mem_append, List.mem_singleton] at hmember
  rcases hmember with (rfl | hstates) | hdata
  · exact .string b.name
  · split_ifs at hstates
    · contradiction
    · obtain rfl := List.mem_singleton.mp hstates
      exact h.1
  · simp only [Option.mem_toList, Option.map_eq_some_iff] at hdata
    obtain ⟨data, hdata, rfl⟩ := hdata
    exact h.2 data hdata

theorem key_eq_iff_members {a b : Block} (ha : a.Plain) (hb : b.Plain) :
    a.key = b.key ↔ Json.canonicalMembers a.members = Json.canonicalMembers b.members := by
  constructor
  · intro h
    refine (Json.objectText_inj (fun x hx y hy => ?_) (congrArg (String.toList · ++ []) h)).1
    obtain ⟨member, hmember, rfl⟩ := List.mem_map.mp hx
    obtain ⟨other, hother, rfl⟩ := List.mem_map.mp hy
    exact Json.parts_canonicalText (plain_of_mem_members ha member hmember)
      (plain_of_mem_members hb other hother)
  · intro h
    exact congrArg Json.objectText h

theorem canonicalMembers_members (b : Block) : Json.canonicalMembers b.members =
    ("name", Json.stringText b.name) ::
      ((if b.states.isEmpty then [] else [("states", (Json.object b.states).canonicalText)]) ++
        ((b.entityData.map fun data => (Json.object data).canonicalText).map
          ("block_entity_data", ·)).toList) := by
  unfold members Json.canonicalMembers
  cases b.states.isEmpty <;> cases b.entityData <;> simp

/-- Blocks have one key exactly when they have one name, their states are the same, and both have
the same data of an entity or both have none. The order of names has no part at any depth. -/
theorem key_eq_iff {a b : Block} (ha : a.Plain) (hb : b.Plain) :
    a.key = b.key ↔ a.name = b.name ∧ Json.Same (.object a.states) (.object b.states) ∧
      Option.Rel (fun d e => Json.Same (.object d) (.object e)) a.entityData b.entityData := by
  have hdata : a.entityData.map (fun d => (Json.object d).canonicalText) =
        b.entityData.map (fun d => (Json.object d).canonicalText) ↔
      Option.Rel (fun d e => Json.Same (.object d) (.object e)) a.entityData b.entityData :=
    Json.map_eq_map_iff_rel fun d hd e he => Json.canonicalText_eq_iff (ha.2 d hd) (hb.2 e he)
  have hstates := Json.canonicalText_eq_iff ha.1 hb.1
  rw [key_eq_iff_members ha hb, canonicalMembers_members, canonicalMembers_members, ← hdata]
  constructor
  · intro h
    obtain ⟨hname, hrest⟩ := List.cons.inj h
    refine ⟨Json.stringText_injective (Prod.mk.inj hname).2, ?_⟩
    -- the names of the members tell which of the two optional ones are there
    cases hna : a.states.isEmpty <;> cases hnb : b.states.isEmpty <;>
      cases hda : a.entityData <;> cases hdb : b.entityData <;>
      simp_all
  · rintro ⟨hname, hsame, hdata⟩
    rw [hname, Json.isEmpty_eq_of_same hsame, hstates.mpr hsame, hdata]

/-- Two chests whose states and data were given in other orders, at two depths. -/
theorem key_eq_iff_reordered :
    let a : Block := ⟨"chest", [("open", .bool false), ("facing", .int 2)],
      some [("Items", .array [.object [("b", .int 1), ("a", .null)]]), ("id", .string "Chest")]⟩
    let b : Block := ⟨"chest", [("facing", .int 2), ("open", .bool false)],
      some [("id", .string "Chest"), ("Items", .array [.object [("a", .null), ("b", .int 1)]])]⟩
    a.Plain ∧ b.Plain ∧
      (a.key = b.key ↔ a.name = b.name ∧ Json.Same (.object a.states) (.object b.states) ∧
        Option.Rel (fun d e => Json.Same (.object d) (.object e)) a.entityData b.entityData) := by
  intro a b
  have ha : a.Plain := by simp [a, Plain, Dictionary.Distinct, -Prod.forall]
  have hb : b.Plain := by simp [b, Plain, Dictionary.Distinct, -Prod.forall]
  exact ⟨ha, hb, key_eq_iff ha hb⟩

end Block
end Hologram
