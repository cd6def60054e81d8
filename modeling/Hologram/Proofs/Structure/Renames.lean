import Hologram.Structure.Upgrade
import Mathlib.Data.List.Perm.Subperm
import Mathlib.Logic.Relation

/-! Chains of renames. A chain that ends passes each name of the table at most once, so as many
renames as the table has are enough to tell it from a chain that never ends. -/
namespace Hologram.Upgrader

variable {table : Dictionary String} {name last : String} {passed : List String}

/-- One rename of a table. -/
def Renames (table : Dictionary String) (name next : String) : Prop :=
  table.get? name = some next

/-- The renames from a name on, with the names that they replace in order, up to a name without a
rename. -/
inductive Chain (table : Dictionary String) : String → List String → String → Prop
  | ends {name : String} (h : table.get? name = none) : Chain table name [] name
  | hop {name next last : String} {passed : List String} (h : table.get? name = some next)
      (rest : Chain table next passed last) : Chain table name (name :: passed) last

namespace Chain

theorem get?_last (h : Chain table name passed last) : table.get? last = none := by
  induction h with
  | ends h => exact h
  | hop _ _ ih => exact ih

/-- A name has at most one rename, so it begins at most one chain. -/
theorem unique (h : Chain table name passed last) {others : List String} {other : String}
    (h' : Chain table name others other) : passed = others ∧ last = other := by
  induction h generalizing others with
  | ends hnone =>
    cases h' with
    | ends _ => exact ⟨rfl, rfl⟩
    | hop hsome _ =>
      rw [hnone] at hsome
      contradiction
  | hop hsome _ ih =>
    cases h' with
    | ends hnone =>
      rw [hnone] at hsome
      contradiction
    | hop hsome' rest =>
      rw [hsome, Option.some_inj] at hsome'
      subst hsome'
      obtain ⟨hpassed, hlast⟩ := ih rest
      exact ⟨congrArg _ hpassed, hlast⟩

/-- Each name that is passed begins what is left of the chain from there. -/
theorem from_passed (h : Chain table name passed last) {other : String} (hother : other ∈ passed) :
    ∃ rest, Chain table other rest last ∧ rest.length ≤ passed.length := by
  induction h with
  | ends _ => contradiction
  | @hop name next last passed hsome rest ih =>
    rcases List.mem_cons.mp hother with rfl | hother
    · exact ⟨other :: passed, .hop hsome rest, Nat.le_refl _⟩
    · obtain ⟨more, hmore, hlength⟩ := ih hother
      exact ⟨more, hmore, Nat.le_succ_of_le hlength⟩

/-- A chain that ends passes no name twice: from the second time on it would be as long as from the
first. -/
theorem nodup (h : Chain table name passed last) : passed.Nodup := by
  induction h with
  | ends _ => exact List.nodup_nil
  | @hop name next last passed hsome rest ih =>
    refine List.nodup_cons.mpr ⟨fun hagain => ?_, ih⟩
    obtain ⟨more, hmore, hlength⟩ := rest.from_passed hagain
    obtain ⟨heq, -⟩ := hmore.unique (.hop hsome rest)
    rw [heq, List.length_cons] at hlength
    exact Nat.lt_irrefl _ hlength

theorem mem_names {name next : String} (h : table.get? name = some next) :
    name ∈ table.map Prod.fst := by
  obtain ⟨before, after, rfl, -⟩ := List.lookup_eq_some_iff.mp h
  simp

theorem subset_names (h : Chain table name passed last) : passed ⊆ table.map Prod.fst := by
  induction h with
  | ends _ => exact List.nil_subset _
  | hop hsome _ ih => exact List.cons_subset.mpr ⟨mem_names hsome, ih⟩

/-- A chain that ends has at most as many renames as the table. -/
theorem length_le (h : Chain table name passed last) : passed.length ≤ table.length := by
  have hlength : (table.map Prod.fst).length = table.length := List.length_map _
  exact hlength ▸ (List.subperm_of_subset h.nodup h.subset_names).length_le

end Chain

/-- What is found with a bound on the renames is the end of a chain within the bound. -/
theorem chainEnd?_eq_some_iff {hops : Nat} :
    chainEnd? table hops name = some last ↔
      ∃ passed, Chain table name passed last ∧ passed.length ≤ hops := by
  induction hops generalizing name with
  | zero =>
    unfold chainEnd?
    constructor
    · intro h
      split_ifs at h with hnone
      cases h
      exact ⟨[], .ends (Option.isNone_iff_eq_none.mp hnone), Nat.le_refl _⟩
    · rintro ⟨passed, hchain, hlength⟩
      cases hchain with
      | ends hnone => rw [if_pos (Option.isNone_iff_eq_none.mpr hnone)]
      | hop _ _ => contradiction
  | succ hops ih =>
    unfold chainEnd?
    cases hget : table.get? name with
    | none =>
      constructor
      · rintro ⟨⟩
        exact ⟨[], .ends hget, Nat.zero_le _⟩
      · rintro ⟨passed, hchain, -⟩
        rw [(hchain.unique (.ends hget)).2]
    | some next =>
      rw [ih]
      constructor
      · rintro ⟨passed, hchain, hlength⟩
        exact ⟨name :: passed, .hop hget hchain, Nat.succ_le_succ hlength⟩
      · rintro ⟨passed, hchain, hlength⟩
        cases hchain with
        | ends hnone =>
          rw [hget] at hnone
          contradiction
        | hop hsome rest =>
          rw [hget, Option.some_inj] at hsome
          subst hsome
          exact ⟨_, rest, Nat.le_of_succ_le_succ hlength⟩

/-- There is a chain to a name exactly when renames lead there and no further. -/
theorem exists_chain_iff : (∃ passed, Chain table name passed last) ↔
    Relation.ReflTransGen (Renames table) name last ∧ table.get? last = none := by
  constructor
  · rintro ⟨passed, h⟩
    refine ⟨?_, h.get?_last⟩
    induction h with
    | ends _ => exact .refl
    | hop hsome _ ih => exact .head hsome ih
  · rintro ⟨h, hlast⟩
    induction h using Relation.ReflTransGen.head_induction_on with
    | refl => exact ⟨[], .ends hlast⟩
    | head hsome _ ih =>
      obtain ⟨passed, hpassed⟩ := ih
      exact ⟨_, .hop hsome hpassed⟩

/-- With as many renames as the table has, the end of every chain that ends is found. -/
theorem chainEnd?_length_eq_some_iff : chainEnd? table table.length name = some last ↔
    Relation.ReflTransGen (Renames table) name last ∧ table.get? last = none := by
  rw [← exists_chain_iff, chainEnd?_eq_some_iff]
  exact ⟨fun ⟨passed, h, _⟩ => ⟨passed, h⟩, fun ⟨passed, h⟩ => ⟨passed, h, h.length_le⟩⟩

/-- A name in two parts: a namespace with the colon behind it, if there is a colon, and what comes
after the first colon. -/
def Splits (whole space name : String) : Prop :=
  whole = space ++ name ∧
    (space = "" ∧ ':' ∉ name.toList ∨ ∃ start, ':' ∉ start.toList ∧ space = start ++ ":")

theorem splits_splitNamespace (whole : String) :
    Splits whole (splitNamespace whole).1 (splitNamespace whole).2 := by
  unfold splitNamespace
  dsimp only
  split_ifs with hcolon
  · obtain ⟨start, rest, hwhole, hstart⟩ :=
      List.eq_append_cons_of_mem (List.contains_iff_mem.mp hcolon)
    have hpass : ∀ c ∈ start, (c != ':') = true := by
      intro c hc
      exact bne_iff_ne.mpr fun h => hstart (h ▸ hc)
    have htake : whole.toList.takeWhile (· != ':') = start := by
      rw [hwhole, List.takeWhile_append_of_pos hpass]
      simp
    have hdrop : whole.toList.dropWhile (· != ':') = ':' :: rest := by
      rw [hwhole, List.dropWhile_append_of_pos hpass]
      simp
    rw [htake, hdrop]
    refine ⟨String.toList_inj.mp ?_, .inr ⟨String.ofList start, ?_, ?_⟩⟩
    · simp [hwhole]
    · simpa using hstart
    · exact String.toList_inj.mp (by simp)
  · exact ⟨by simp, .inl ⟨rfl, by simpa using hcolon⟩⟩

/-- What a table makes of a block depends on the end of one chain. -/
theorem run_updateInPlace_rename (latest : Int) (table : Dictionary String) (block : SavedBlock) :
    (rename latest table).updateInPlace.run block =
      match chainEnd? table table.length (splitNamespace block.name).2 with
      | some last =>
        .ok () { block with name := (splitNamespace block.name).1 ++ last, version := some latest }
      | none => .error (.endlessRenames block.name) block := by
  unfold updateInPlace
  rw [EStateM.run_bind]
  change (match chainEnd? table table.length (splitNamespace block.name).2 with
    | some last =>
      (set { block with name := (splitNamespace block.name).1 ++ last, version := some latest } :
        EStateM PackError SavedBlock Unit)
    | none => throw (PackError.endlessRenames block.name)).run block = _
  cases chainEnd? table table.length (splitNamespace block.name).2 <;> rfl

/-- A block whose chain of renames does not end is left as it is, and the error says so. Any other
block gets the name at the end of the chain in its own namespace, and the latest version. -/
theorem updateInPlace_rename (latest : Int) (table : Dictionary String) (block : SavedBlock) :
    ∃ space name, Splits block.name space name ∧
      ((∃ e left, (rename latest table).updateInPlace.run block = .error e left) ↔
        ∀ last, Relation.ReflTransGen (Renames table) name last → table.get? last ≠ none) ∧
      (∀ e left, (rename latest table).updateInPlace.run block = .error e left →
        e = .endlessRenames block.name ∧ left = block) ∧
      ∀ left, (rename latest table).updateInPlace.run block = .ok () left →
        ∃ last, Relation.ReflTransGen (Renames table) name last ∧ table.get? last = none ∧
          left = { block with name := space ++ last, version := some latest } := by
  refine ⟨_, _, splits_splitNamespace block.name, ?_⟩
  rw [run_updateInPlace_rename]
  cases hend : chainEnd? table table.length (splitNamespace block.name).2 with
  | none =>
    have hendless : ∀ last,
        Relation.ReflTransGen (Renames table) (splitNamespace block.name).2 last →
          table.get? last ≠ none := by
      intro last hreach hlast
      rw [chainEnd?_length_eq_some_iff.mpr ⟨hreach, hlast⟩] at hend
      contradiction
    refine ⟨⟨fun _ => hendless, fun _ => ⟨_, _, rfl⟩⟩, fun e left h => ?_, nofun⟩
    cases h
    exact ⟨rfl, rfl⟩
  | some last =>
    obtain ⟨hreach, hlast⟩ := chainEnd?_length_eq_some_iff.mp hend
    refine ⟨⟨nofun, fun h => absurd hlast (h last hreach)⟩, nofun, fun left h => ?_⟩
    cases h
    exact ⟨last, hreach, hlast, rfl⟩

/-- A cycle that is entered after a first name, with as many renames as names. -/
example : (rename 2 [("a", "b"), ("b", "c"), ("c", "b")]).updateInPlace.run ⟨"x:a", [], some 1, none⟩
    matches .error (.endlessRenames "x:a") ⟨"x:a", [], some 1, none⟩ := by decide +kernel

end Hologram.Upgrader
