import Hologram.Proofs.Pack.Readability

/-! The script that runs once: it is read as its code, it comes to its end from everywhere, and what
it leaves shows the settings that a hologram starts with. -/
namespace Hologram

open Script

namespace Variable

/-- Every variable can be an integer. -/
theorem shows_ofInt (v : Variable) {n : Int} (hn : n.natAbs ≤ 2 ^ 53) :
    v.Shows (.number (Float.ofInt n)) n := by
  have hzero : Number.IsInt 0.0 0 := Number.isInt_ofInt (a := 0) (by decide)
  have htruthy : Value.isTruthy (.number (Float.ofInt n)) = decide (n ≠ 0) := by
    rw [Value.isTruthy, bne, (Number.isInt_ofInt hn).beq hzero, decide_not]
  unfold Shows
  cases v.kind with
  | counted => exact ⟨_, rfl, Number.isInt_ofInt hn⟩
  | asked => exact htruthy
  | placed => exact ⟨_, rfl⟩
  | total => exact fun _ => rfl

/-- What is asked for or only passed on shows some integer, whatever it is. -/
theorem exists_shows {v : Variable} (hv : v.kind = .asked ∨ v.kind = .total) (value : Value) :
    ∃ n, v.Shows value n := by
  rcases hv with hv | hv
  · cases htruthy : value.isTruthy with
    | true => exact ⟨1, (shows_asked hv).mpr htruthy⟩
    | false => exact ⟨0, (shows_asked hv).mpr htruthy⟩
  · refine ⟨-1, ?_⟩
    rw [Shows, hv]
    exact fun h => absurd h (by decide)

end Variable

/-- The store in which variables have integers, one after another. -/
def Script.Store.setAll (store : Store) (entries : List (Variable × Int)) : Store :=
  entries.foldl (fun store entry => store.insert entry.1.name (.number (Float.ofInt entry.2))) store

theorem variableValue_setAll {entries : List (Variable × Int)}
    (h : (entries.map Prod.fst).Nodup) (store : Store) (v : Variable) :
    Expression.variableValue (store.setAll entries) v.name =
      ((entries.lookup v).map fun n => .number (Float.ofInt n)).getD
        (Expression.variableValue store v.name) := by
  induction entries generalizing store with
  | nil => rfl
  | cons entry rest ih =>
    obtain ⟨w, n⟩ := entry
    obtain ⟨hnotMem, hrest⟩ := List.nodup_cons.mp h
    have hrun : store.setAll ((w, n) :: rest) =
        Store.setAll (store.insert w.name (.number (Float.ofInt n))) rest := rfl
    rw [hrun, ih hrest, variableValue_insert, List.lookup_cons]
    by_cases hv : v = w
    · subst hv
      have hnone : rest.lookup v = none := by
        rw [List.lookup_eq_none_iff]
        intro entry hmem
        have hkey : v ≠ entry.1 := by
          rintro rfl
          have hkeys : entry.1 ∈ rest.map Prod.fst := List.mem_map_of_mem hmem
          exact hnotMem hkeys
        exact bne_iff_ne.mpr hkey
      simp [hnone]
    · have hname : w.name ≠ v.name := fun heq => hv (Variable.name_injective heq).symm
      simp [beq_eq_false_iff_ne.mpr hv, hname]

namespace EntityScripts

/-- The variables that are set from the start, with their integers. -/
def starts (config : Config) (count : Nat) (first : Size) : List (Variable × Int) := [
  (.rendering, 1), (.validating, 0), (.showTint, 0), (.opacity, 0), (.layer, -1),
  (.layerMode, LayerMode.single.number), (.structureIndex, 0), (.structureCount, count),
  (.rotation, 0), (.backupSlot, -1), (.savingBackup, 0), (.lastAction, 0), (.wasSneaking, 0),
  (.controlsDisabled, 0), (.offsetX, config.initialOffset.x), (.offsetY, config.initialOffset.y),
  (.offsetZ, config.initialOffset.z), (.structureWidth, first.width),
  (.structureHeight, first.height), (.structureDepth, first.depth)]

theorem nodup_starts (config : Config) (count : Nat) (first : Size) :
    ((starts config count first).map Prod.fst).Nodup := by
  simp [starts]

theorem setupCode_eq (config : Config) (count : Nat) (first : Size) :
    setupCode config count first =
      (starts config count first).map fun entry => start entry.1 entry.2 := rfl

theorem leaves_starts (functions : Functions) (entries : List (Variable × Int)) (store : Store) :
    Code.Leaves functions (entries.map fun entry => start entry.1 entry.2) store
      (store.setAll entries) := by
  induction entries generalizing store with
  | nil => exact Code.leaves_nil functions store
  | cons entry rest ih =>
    have hvalue : (Expression.int entry.2).settled.evaluate functions store =
        .ok (.number (Float.ofInt entry.2)) := rfl
    exact (Code.leaves_assign hvalue).cons (ih _)

theorem leaves_setupCode (config : Config) (count : Nat) (first : Size) (functions : Functions)
    (store : Store) : Code.Leaves functions (setupCode config count first) store
      (store.setAll (starts config count first)) := by
  rw [setupCode_eq]
  exact leaves_starts functions _ store

theorem readable_starts {entries : List (Variable × Int)}
    (h : ∀ entry ∈ entries, entry.2.natAbs ≤ 2 ^ 53) :
    Code.Readable (entries.map fun entry => start entry.1 entry.2) := by
  induction entries with
  | nil => trivial
  | cons entry rest ih =>
    obtain ⟨hentry, hrest⟩ := List.forall_mem_cons.mp h
    exact readable_start hentry (ih hrest)

variable {config : Config} {count : Nat} {first : Size}

theorem natAbs_le_of_mem_starts (hconfig : config.Fits) (hcount : count ≤ 2 ^ 53)
    (hfirst : ∀ n ∈ first.extents, n < 2 ^ 32) :
    ∀ entry ∈ starts config count first, entry.2.natAbs ≤ 2 ^ 53 := by
  have hoffset := hconfig.offset
  simp only [Size.extents, List.forall_mem_cons] at hoffset hfirst
  have hsingle : LayerMode.single.number = 0 := rfl
  simp [starts, hsingle]
  omega

theorem readable_setupCode (hconfig : config.Fits) (hcount : count ≤ 2 ^ 53)
    (hfirst : ∀ n ∈ first.extents, n < 2 ^ 32) : (setupCode config count first).Readable := by
  rw [setupCode_eq]
  exact readable_starts (natAbs_le_of_mem_starts hconfig hcount hfirst)

/-- The first script comes to its end, and it sets its variables. -/
theorem executeText_setupCode (hconfig : config.Fits) (hcount : count < 2 ^ 31)
    (hfirst : ∀ n ∈ first.extents, n < 2 ^ 32) (functions : Functions) (store : Store) :
    Program.executeText functions (setupCode config count first).text store =
      (.ok none, store.setAll (starts config count first)) := by
  have hread : (setupCode config count first).Readable :=
    readable_setupCode hconfig (by omega) hfirst
  exact (leaves_setupCode config count first functions store).executeText hread

end EntityScripts

namespace Settings

variable {sneaks : Bool} {s : Settings} {store : Store} {config : Config} {count : Nat}
  {first : Size}

/-- Whether the player sneaks changes nothing else. -/
theorem Shown.sneak (h : s.Shown sneaks store) (value : Value) :
    s.Shown value.isTruthy (store.insert "q.is_sneaking" value) := by
  constructor
  · rw [variableValue_insert, if_pos rfl]
  · intro v
    rw [variableValue_insert, if_neg v.sneaking_ne_name]
    exact h.shows v

/-- The settings that a hologram starts with. -/
def Started (config : Config) (count : Nat) (first : Size) (s : Settings) : Prop :=
  ∀ v n, (EntityScripts.starts config count first).lookup v = some n → s v = n

/-- What the first script leaves shows settings that a hologram starts with. -/
theorem exists_started (hconfig : config.Fits) (hcount : count < 2 ^ 31)
    (hfirst : ∀ n ∈ first.extents, n < 2 ^ 32) (store : Store) :
    ∃ s sneaks, Started config count first s ∧
      s.Shown sneaks (store.setAll (EntityScripts.starts config count first)) := by
  have hsmall : ∀ entry ∈ EntityScripts.starts config count first, entry.2.natAbs ≤ 2 ^ 53 :=
    EntityScripts.natAbs_le_of_mem_starts hconfig (by omega) hfirst
  have hnodup := EntityScripts.nodup_starts config count first
  have h (v : Variable) : ∃ n,
      v.Shows (Expression.variableValue
        (store.setAll (EntityScripts.starts config count first)) v.name) n ∧
      ∀ m, (EntityScripts.starts config count first).lookup v = some m → n = m := by
    rw [variableValue_setAll hnodup]
    cases hv : (EntityScripts.starts config count first).lookup v with
    | some n =>
      obtain ⟨before, after, heq, -⟩ := List.lookup_eq_some_iff.mp hv
      have hmem : (v, n) ∈ EntityScripts.starts config count first := by
        simp [heq]
      exact ⟨n, v.shows_ofInt (hsmall _ hmem), fun m hm => Option.some.inj hm⟩
    | none =>
      have hkind : v.kind = .asked ∨ v.kind = .total := by
        cases v <;> first | exact .inl rfl | exact .inr rfl | cases hv
      obtain ⟨n, hn⟩ := Variable.exists_shows hkind (Expression.variableValue store v.name)
      exact ⟨n, hn, nofun⟩
  choose s hs using h
  exact ⟨s, _, fun v => (hs v).2, rfl, fun v => (hs v).1⟩

/-- A hologram starts in the ranges. -/
theorem Started.inRange (h : Started config count first s) (hcount : 0 < count) (slots : Nat) :
    s.InRange slots count first.height := by
  intro v
  cases v with
  | rendering => exact .inr (h _ _ rfl)
  | validating | showTint | controlsDisabled | layerMode => exact .inl (h _ _ rfl)
  | opacity | rotation =>
    rw [h _ _ rfl]
    exact ⟨by decide, by decide⟩
  | layer | backupSlot =>
    rw [h _ _ rfl]
    exact ⟨by decide, by omega⟩
  | structureIndex =>
    rw [h _ _ rfl]
    exact ⟨by decide, by omega⟩
  | structureCount | structureHeight => exact h _ _ rfl
  | lastAction =>
    rw [h _ _ rfl]
    exact ⟨_, .head _, rfl⟩
  | _ => trivial

end Settings
end Hologram
