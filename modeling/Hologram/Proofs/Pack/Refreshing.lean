import Hologram.Proofs.Pack.Reacting
import Hologram.Proofs.Script.NumberTable

/-! What a frame does before a held item acts: the extents and the totals follow the selected
structure, the layer stays below its top, and the start of sneaking is noted. -/
namespace Hologram

open Script

/-- Settings with no number too great for the 32 bits that it is kept in. -/
structure Config.Fits (config : Config) : Prop where
  slots_lt : config.backupSlotCount < 2 ^ 32
  offset : ∀ n ∈ [config.initialOffset.x, config.initialOffset.y, config.initialOffset.z],
    n.natAbs ≤ 2 ^ 31

theorem Config.fits_standard : Config.standard.Fits := ⟨by decide, by decide⟩

/-- A structure of some size and what validation looks for in it, with no number too great for the
width that it is kept in, and no more heights than a double can count. -/
structure Validation.Fits (size : Size) (v : Validation) : Prop where
  extents_lt : ∀ n ∈ size.extents, n < 2 ^ 32
  blocks_lt : v.blocks.length < 2 ^ 63
  counts_lt : ∀ n ∈ v.counts, n < 2 ^ 63
  heights_le : v.counts.length ≤ 2 ^ 53

/-- Structures of which the scripts can be written. -/
structure EntityScripts.Writable (structures : List (Size × Validation)) : Prop where
  length_lt : structures.length < 2 ^ 31
  fits : ∀ entry ∈ structures, entry.2.Fits entry.1

/-- Structures with numbers that fit, no more of them than a double can count. -/
structure EntityScripts.Numbered (structures : List (Size × Validation)) : Prop where
  length_le : structures.length ≤ 2 ^ 53
  fits : ∀ entry ∈ structures, entry.2.Fits entry.1

namespace EntityScripts

variable {structures : List (Size × Validation)}

theorem Writable.numbered (h : Writable structures) : Numbered structures :=
  ⟨Nat.le_of_lt (Nat.lt_trans h.length_lt (by decide)), h.fits⟩

theorem literals_map (f : Size × Validation → Nat) (h : ∀ entry ∈ structures, f entry < 2 ^ 63) :
    Lookup.Literals (structures.map f) :=
  Lookup.literals_of_lt (List.forall_mem_map.mpr h)

namespace Numbered

theorem extent_lt (h : Numbered structures) {entry : Size × Validation} (hmem : entry ∈ structures)
    {extent : Size → Nat} (hextent : ∀ size : Size, extent size ∈ size.extents) :
    extent entry.1 < 2 ^ 32 :=
  (h.fits entry hmem).extents_lt _ (hextent entry.1)

theorem height_lt (h : Numbered structures) {entry : Size × Validation}
    (hmem : entry ∈ structures) : entry.1.height < 2 ^ 32 :=
  h.extent_lt hmem fun _ => .tail _ (.head _)

theorem literals_extents (h : Numbered structures) {extent : Size → Nat}
    (hextent : ∀ size : Size, extent size ∈ size.extents) :
    Lookup.Literals ((structures.map Prod.fst).map extent) := by
  rw [List.map_map]
  apply literals_map
  intro entry hmem
  exact Nat.lt_trans (h.extent_lt hmem hextent) (by decide)

theorem literals_totals (h : Numbered structures) : Lookup.Literals
    ((structures.map Prod.snd).map fun validation => validation.blocks.length) := by
  rw [List.map_map]
  apply literals_map
  intro entry hmem
  exact (h.fits entry hmem).blocks_lt

theorem literals_counts (h : Numbered structures) :
    ∀ row ∈ (structures.map Prod.snd).map (·.counts),
      Lookup.Literals row ∧ row.length ≤ 2 ^ 53 := by
  intro row hrow
  rw [List.map_map] at hrow
  obtain ⟨entry, hmem, rfl⟩ := List.mem_map.mp hrow
  exact ⟨Lookup.literals_of_lt (h.fits entry hmem).counts_lt, (h.fits entry hmem).heights_le⟩

end Numbered

theorem Writable.height_lt (h : Writable structures) {entry : Size × Validation}
    (hmem : entry ∈ structures) : entry.1.height < 2 ^ 32 :=
  h.numbered.height_lt hmem

end EntityScripts

namespace Settings

/-- The extents are those of the selected structure, and the layer is not above it. -/
def followed (size : Size) (s : Settings) : Settings :=
  let s := Function.update s .structureWidth size.width
  let s := Function.update s .structureHeight size.height
  let s := Function.update s .structureDepth size.depth
  Function.update s .layer
    (if s .structureHeight ≤ s .layer then s .structureHeight - 1 else s .layer)

theorem followed_layer (size : Size) (s : Settings) : followed size s .layer =
    if (size.height : Int) ≤ s .layer then (size.height : Int) - 1 else s .layer := rfl

/-- No backup is saved, and the player has started to sneak if it is new that he sneaks. -/
def sneaked (sneaks : Bool) (s : Settings) : Settings :=
  let s := Function.update s .savingBackup 0
  let s := Function.update s .sneakStarted (if sneaks && decide (s .wasSneaking = 0) then 1 else 0)
  Function.update s .wasSneaking (if sneaks then 1 else 0)

/-- What the settings are before a held item acts, where the selected structure has some numbers of
blocks, as a whole and in the selected layer. -/
def refreshed (sneaks : Bool) (size : Size) (total inLayer : Nat) (s : Settings) : Settings :=
  let s := Function.update (followed size s) .blocksToValidate total
  sneaked sneaks (Function.update s .blocksToValidateInLayer inLayer)

variable {functions : Functions} {sneaks : Bool} {config : Config} {s t : Settings} {v : Variable}

theorem Shown.hasInt {store : Store} (h : s.Shown sneaks store) (hv : v.kind = .counted) {n : Int}
    (hs : s v = n) (hn : n.natAbs ≤ 2 ^ 53) : store.HasInt v.name n := by
  subst hs
  exact (h.counts hv).hasInt hn

/-- The code of a number for each structure is worth that of the selected one. -/
theorem evaluateWith_perStructure {numbers : List Nat} (h : Lookup.Literals numbers)
    (hlength : numbers.length ≤ 2 ^ 53) {i m : Nat} (hm : numbers[i]? = some m) {store : Store}
    (hstore : store.HasInt Variable.structureIndex.name i)
    (rawValue : String → Except EvalError Value) :
    (EntityScripts.perStructure config numbers).settled.evaluateWith functions store rawValue =
      .ok (.number (Float.ofInt m)) := by
  have hx := Variable.structureIndex.isName_name
  have hlt := (List.getElem?_eq_some_iff.mp hm).1
  have hindex : (i : Int).natAbs ≤ 2 ^ 53 := by omega
  obtain ⟨n, hn, hplace⟩ :=
    Lookup.evaluateText_ofList config.arraySplitThreshold hx hindex h hlength
  obtain ⟨e, he⟩ := (Lookup.legible_ofList config.arraySplitThreshold hx h hlength).1
  obtain rfl := hplace i rfl m hm
  exact (Expression.evaluateWith_settled_raw he _).trans (hn functions store hstore)

/-- A variable takes the number of the selected structure. -/
theorem turns_perStructure {numbers : List Nat} (h : Lookup.Literals numbers)
    (hlength : numbers.length < 2 ^ 31) {i m : Nat} (hi : s .structureIndex = i)
    (hm : numbers[i]? = some m) (hv : v.Shows (.number (Float.ofInt m)) m) :
    Turns functions sneaks [v.set (EntityScripts.perStructure config numbers)] s
      (Function.update s v m) := by
  have hlt := (List.getElem?_eq_some_iff.mp hm).1
  apply turns_set
  intro store hstore
  have hstored : store.HasInt Variable.structureIndex.name i := hstore.hasInt rfl hi (by omega)
  exact ⟨_, evaluateWith_perStructure h (by omega) hm hstored _, hv⟩

/-- The total in the layer takes the number of the selected layer of the selected structure, or
another one where no layer is selected. -/
theorem exists_turns_perLayer {rows : List (List Nat)} {row : List Nat}
    (h : ∀ row ∈ rows, Lookup.Literals row ∧ row.length ≤ 2 ^ 53) (hlength : rows.length < 2 ^ 31)
    {i : Nat} (hi : s .structureIndex = i) (hrow : rows[i]? = some row)
    (hlayer : (s .layer).natAbs ≤ 2 ^ 53) :
    ∃ n : Nat, Turns functions sneaks
        [Variable.blocksToValidateInLayer.set (EntityScripts.perLayer config rows)] s
        (Function.update s .blocksToValidateInLayer n) ∧
      ∀ y : Nat, s .layer = y → ∀ m, row[y]? = some m → n = m := by
  have hx := Variable.structureIndex.isName_name
  have hy := Variable.layer.isName_name
  have hlt := (List.getElem?_eq_some_iff.mp hrow).1
  have hindex : (i : Int).natAbs ≤ 2 ^ 53 := by omega
  obtain ⟨n, hn, hplace⟩ := Lookup.evaluateText_ofRows config.arraySplitThreshold hx hy hlayer h
    (by omega) hrow
  obtain ⟨e, he⟩ := (Lookup.legible_ofRows config.arraySplitThreshold hx hy h (by omega)).1
  refine ⟨n, ?_, hplace⟩
  apply turns_set
  intro store hstore
  have hstored : store.HasInt Variable.structureIndex.name i := hstore.hasInt rfl hi hindex
  refine ⟨_, ?_, fun _ => rfl⟩
  exact (Expression.evaluateWith_settled_raw he _).trans
    (hn functions store hstored (hstore.hasInt rfl rfl hlayer))

section

variable {structures : List (Size × Validation)} {size : Size} {validation : Validation} {i : Nat}

/-- A variable takes an extent of the selected structure. -/
theorem turns_extent (h : EntityScripts.Writable structures) (hi : s .structureIndex = i)
    (hentry : structures[i]? = some (size, validation)) {extent : Size → Nat}
    (hextent : ∀ size : Size, extent size ∈ size.extents) (hv : v.kind = .counted) :
    Turns functions sneaks
      [v.set (EntityScripts.perStructure config ((structures.map Prod.fst).map extent))] s
      (Function.update s v (extent size)) := by
  have hsize : extent size < 2 ^ 32 := h.numbered.extent_lt (List.mem_of_getElem? hentry) hextent
  apply turns_perStructure (h.numbered.literals_extents hextent)
  · simpa using h.length_lt
  · exact hi
  · simp [hentry]
  · exact (Variable.shows_counted hv).mpr ⟨_, rfl, Number.isInt_ofInt (by omega)⟩

/-- The layer is not left above the structure. -/
theorem turns_clamped (h : (s .structureHeight - 1).natAbs ≤ 2 ^ 53) :
    Turns functions sneaks [.branch EntityScripts.isAboveTop [EntityScripts.selectTop] []] s
      (Function.update s .layer
        (if s .structureHeight ≤ s .layer then s .structureHeight - 1 else s .layer)) := by
  have hclamped : Turns functions sneaks
      [.branch EntityScripts.isAboveTop [EntityScripts.selectTop] []] s
      (if s .structureHeight ≤ s .layer then Function.update s .layer (s .structureHeight - 1)
        else s) :=
    decides_isAboveTop.turns_guarded fun _ => ((gives_shifted rfl).2 h).turns rfl
  split_ifs at hclamped ⊢
  · exact hclamped
  · rwa [Function.update_eq_self]

/-- The start of sneaking is noted, and whether the player sneaks. -/
theorem turns_sneaked {rest : Code} (h : Turns functions sneaks rest (sneaked sneaks s) t) :
    Turns functions sneaks (EntityScripts.start .savingBackup 0 ::
      Variable.sneakStarted.set
        (.binary .and EntityScripts.sneaking Variable.wasSneaking.negation) ::
      Variable.wasSneaking.set EntityScripts.sneaking :: rest) s t := by
  have hstarted (s : Settings) : Turns functions sneaks [Variable.sneakStarted.set
      (.binary .and EntityScripts.sneaking Variable.wasSneaking.negation)] s
      (Function.update s .sneakStarted
        (if sneaks && decide (s .wasSneaking = 0) then 1 else 0)) := by
    apply turns_set
    intro store hstore
    have hwas := (@decides_asked functions sneaks _ .wasSneaking rfl store hstore).not
    obtain ⟨value, hvalue, htruthy⟩ := ((decides_sneaking store hstore).and hwas) _
    exact ⟨value, hvalue, (Variable.shows_asked rfl).mpr (by simp [htruthy])⟩
  have hsneaks (s : Settings) : Turns functions sneaks
      [Variable.wasSneaking.set EntityScripts.sneaking] s
      (Function.update s .wasSneaking (if sneaks then 1 else 0)) := by
    apply turns_set
    intro store hstore
    obtain ⟨value, hvalue, htruthy⟩ := @decides_sneaking functions sneaks _ store hstore _
    exact ⟨value, hvalue, (Variable.shows_asked rfl).mpr (by simp [htruthy])⟩
  refine Turns.cons (turns_start rfl (by decide)) ?_
  exact Turns.cons (hstarted _) (Turns.cons (hsneaks _) h)

/-- A frame refreshes the settings, and then a held item acts. -/
theorem exists_turns_refreshed (h : EntityScripts.Writable structures) (hi : s .structureIndex = i)
    (hentry : structures[i]? = some (size, validation)) (hlayer : (s .layer).natAbs ≤ 2 ^ 32) :
    ∃ inLayer : Nat,
      (∀ t, Turns functions sneaks [EntityScripts.actions config]
          (refreshed sneaks size validation.blocks.length inLayer s) t →
        Turns functions sneaks
          (EntityScripts.frameCode config (structures.map Prod.fst) (structures.map Prod.snd)) s
          t) ∧
      ∀ y : Nat, followed size s .layer = y → ∀ m, validation.counts[y]? = some m →
        inLayer = m := by
  have hlength : structures.length < 2 ^ 31 := h.length_lt
  have hheight : size.height < 2 ^ 32 := h.height_lt (List.mem_of_getElem? hentry)
  have hfollowed : (followed size s .layer).natAbs ≤ 2 ^ 53 := by
    rw [followed_layer]
    split_ifs <;> omega
  have htotal : Turns functions sneaks [Variable.blocksToValidate.set (EntityScripts.perStructure
      config ((structures.map Prod.snd).map fun validation => validation.blocks.length))]
      (followed size s)
      (Function.update (followed size s) .blocksToValidate validation.blocks.length) :=
    turns_perStructure h.numbered.literals_totals (by simpa using hlength) hi (by simp [hentry])
      fun _ => rfl
  obtain ⟨inLayer, hturns, hplace⟩ := @exists_turns_perLayer functions sneaks config
    (Function.update (followed size s) .blocksToValidate validation.blocks.length)
    ((structures.map Prod.snd).map (·.counts)) validation.counts h.numbered.literals_counts
    (by simpa using hlength) i hi (by simp [hentry]) hfollowed
  refine ⟨inLayer, fun t ht => ?_, hplace⟩
  have hextent {s : Settings} (hi : s .structureIndex = i) {v : Variable} {extent : Size → Nat}
      (hv : v.kind = .counted) (hextent : ∀ size : Size, extent size ∈ size.extents) :=
    @turns_extent functions sneaks config s v structures size validation i h hi hentry extent
      hextent hv
  refine Turns.cons (hextent (by exact hi) rfl fun _ => .head _) ?_
  refine Turns.cons (hextent (by exact hi) rfl fun _ => .tail _ (.head _)) ?_
  refine Turns.cons (hextent (by exact hi) rfl fun _ => .tail _ (.tail _ (.head _))) ?_
  refine Turns.cons (turns_clamped (by simp; omega)) ?_
  exact Turns.cons htotal (Turns.cons hturns (turns_sneaked ht))

/-- Refreshed settings are in the ranges of the structure that was selected. -/
theorem InRange.refreshed {slots count height : Nat} (h : s.InRange slots count height)
    (sneaks : Bool) (size : Size) (total inLayer : Nat) :
    InRange slots count size.height (refreshed sneaks size total inLayer s) := by
  have hfollowed : InRange slots count size.height (followed size s) := by
    intro v
    have hv := h v
    cases v with
    | layer =>
      have hlayer : -1 ≤ s .layer ∧ s .layer < height := hv
      rw [followed_layer]
      refine ⟨?_, ?_⟩ <;> split_ifs <;> omega
    | structureHeight => rfl
    | _ => exact hv
  refine InRange.update (InRange.update (InRange.update (InRange.update (InRange.update hfollowed
    ?_) ?_) ?_) ?_) ?_ <;> trivial

end
end Settings
end Hologram
