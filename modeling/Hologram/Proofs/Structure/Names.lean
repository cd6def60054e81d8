import Hologram.Proofs.Structure.VoxelMeaning

/-! The names in a clean palette: the present names of what was saved, without those that are left
out. Whether a block has a name is asked of what was saved, so a name can be lost on the way. -/
namespace Hologram

namespace Palette

/-- Some slot has a block of this name. -/
def HasName (p : Palette) (name : String) : Prop :=
  ∃ slot block, p.block? slot = some block ∧ block.name = name

theorem HasName.push {p : Palette} {block : Block} {name : String}
    (h : (p.push (some block)).HasName name) : p.HasName name ∨ block.name = name := by
  obtain ⟨slot, found, hfound, hname⟩ := h
  rw [block?_push] at hfound
  split_ifs at hfound
  · cases hfound
    exact .inr hname
  · exact .inl ⟨slot, found, hfound, hname⟩

theorem Extends.hasName {p q : Palette} (h : p.Extends q) {name : String}
    (hname : p.HasName name) : q.HasName name := by
  obtain ⟨slot, block, hblock, hname⟩ := hname
  exact ⟨slot, block, h.block? hblock, hname⟩

end Palette

namespace Folding

variable {config : Config}

/-- A variant has the name of its block, so one payload brings no name and takes none away. -/
theorem hasName_add (f : Folding) (entry : Nat × Option (Dictionary Json)) {name : String} :
    (f.add config entry).palette.HasName name ↔ f.palette.HasName name := by
  rcases add_cases config f entry with hsame | ⟨base, block, data, -, hblock, hmove⟩
  · rw [hsame]
  · rw [hmove]
    refine ⟨fun hname => ?_, (extends_slotOf f _).hasName⟩
    change (f.slotOf (block.withEntityData data)).2.palette.HasName name at hname
    unfold slotOf at hname
    split at hname
    case h_1 => exact hname
    case h_2 => exact hname.push.elim id fun hown => ⟨base, block, hblock, hown⟩

theorem hasName_foldl (f : Folding) (entries : List (Nat × Option (Dictionary Json)))
    {name : String} :
    (entries.foldl (Folding.add config) f).palette.HasName name ↔ f.palette.HasName name := by
  induction entries generalizing f with
  | nil => exact Iff.rfl
  | cons entry rest ih => exact (ih (f.add config entry)).trans (hasName_add f entry)

/-- For every slot that voxels moved away from there is one of these voxels, which now refers to a
block of the same name. -/
structure Inherits (done : List (Nat × Option (Dictionary Json))) (f : Folding) : Prop where
  remembers : f.Remembers
  heir : ∀ base ∈ f.bases, ∃ entry ∈ done, ∃ (slot : Nat) (block heir : Block),
    f.palette.block? base = some block ∧ f.primary[entry.1]? = some (slot : Int) ∧
      f.palette.block? slot = some heir ∧ heir.name = block.name

theorem inherits_start (palette : Palette) (primary : Layer) :
    Inherits [] { palette, primary } where
  remembers _ _ hslot := by contradiction
  heir _ hbase := by contradiction

namespace Inherits

variable {done : List (Nat × Option (Dictionary Json))} {f : Folding}

/-- A voxel that moves becomes the heir of its slot, and those before it stay where they are. -/
theorem add (h : Inherits done f) {entry : Nat × Option (Dictionary Json)}
    (hnew : ∀ other ∈ done, other.1 ≠ entry.1) :
    Inherits (done ++ [entry]) (f.add config entry) := by
  rcases add_cases config f entry with hsame | ⟨base, block, data, hr, hblock, hmove⟩
  · rw [hsame]
    refine ⟨h.remembers, fun base hbase => ?_⟩
    obtain ⟨other, hother, hheir⟩ := h.heir base hbase
    exact ⟨other, List.mem_append_left _ hother, hheir⟩
  · rw [hmove]
    have hextends := extends_slotOf f (block.withEntityData data)
    refine ⟨h.remembers.slotOf _, fun old hold => ?_⟩
    have hcases : old = base ∨ old ∈ f.bases := by simpa [move] using hold
    rcases hcases with rfl | hold
    · obtain ⟨heir, hheir, hkey⟩ := block?_slotOf h.remembers (block.withEntityData data)
      obtain ⟨hoffset, -⟩ := Array.getElem?_eq_some_iff.mp hr
      exact ⟨entry, by simp, _, block, heir, hextends.block? hblock, by simp [move, hoffset],
        hheir, (Block.name_eq_of_key_eq hkey).trans (Block.name_withEntityData block data)⟩
    · obtain ⟨other, hother, slot, before, heir, hbefore, hslot, hheir, hname⟩ := h.heir old hold
      exact ⟨other, List.mem_append_left _ hother, slot, before, heir, hextends.block? hbefore,
        by simp [move, (hnew other hother).symm, hslot], hextends.block? hheir, hname⟩

end Inherits

end Folding

namespace SavedBlock

theorem toList_plainName {name : String} {rest : List Char}
    (h : "minecraft:".toList ++ rest = name.toList) : (plainName name).toList = rest := by
  have hlength : "minecraft:".toList.length = 10 := by decide
  rw [plainName, if_pos ⟨rest, h⟩, ← h, String.toList_ofList, List.drop_left' hlength]

theorem plainName_of_not_isPrefix {name : String} (h : ¬ "minecraft:".toList <+: name.toList) :
    plainName name = name :=
  if_neg h

/-- Nothing is left of a name that was empty or nothing but the namespace of the game. -/
theorem plainName_eq_empty_iff {name : String} :
    plainName name = "" ↔ name = "" ∨ name = "minecraft:" := by
  by_cases hstart : "minecraft:".toList <+: name.toList
  · obtain ⟨rest, hrest⟩ := hstart
    rw [← String.toList_inj, ← String.toList_inj, ← String.toList_inj, toList_plainName hrest,
      ← hrest]
    simp
  · rw [plainName_of_not_isPrefix hstart]
    refine (or_iff_left fun hgame : name = "minecraft:" => hstart ?_).symm
    subst hgame
    exact List.prefix_rfl

/-- The namespace of the game is taken away once. -/
theorem game_isPrefix_plainName_iff {name : String} :
    "minecraft:".toList <+: (plainName name).toList ↔
      "minecraft:minecraft:".toList <+: name.toList := by
  have htwice : "minecraft:minecraft:".toList = "minecraft:".toList ++ "minecraft:".toList := by
    decide
  by_cases hstart : "minecraft:".toList <+: name.toList
  · obtain ⟨rest, hrest⟩ := hstart
    rw [toList_plainName hrest, ← hrest, htwice, List.prefix_append_right_inj]
  · rw [plainName_of_not_isPrefix hstart]
    refine iff_of_false hstart fun h => hstart ?_
    exact (htwice ▸ List.prefix_append _ _ : "minecraft:".toList <+: _).trans h

theorem current?_eq_some_iff {config : Config} {upgrader : Upgrader} {b : SavedBlock}
    {block : Block} : b.current? config upgrader = some block ↔
      ∃ current, upgrader.updateIfOutdated b = .ok current ∧
        config.ignoresBlock (plainName current.name) = false ∧
        block = ⟨plainName current.name, current.states, current.entityData⟩ := by
  unfold current?
  cases upgrader.updateIfOutdated b with
  | error e => simp [Except.toOption]
  | ok current =>
    cases hi : config.ignoresBlock (plainName current.name)
    · simpa [Except.toOption, hi] using eq_comm
    · simp [Except.toOption, hi]

end SavedBlock

namespace Structure

variable {config : Config} {upgrader : Upgrader}

/-- The clean palette has the present names of what was saved. -/
theorem hasName_cleanPalette {blocks : List SavedBlock} {palette : Palette} {name : String}
    (h : cleanPalette config upgrader blocks = .ok palette) :
    palette.HasName name ↔ ∃ saved ∈ blocks, ∃ current,
      upgrader.updateIfOutdated saved = .ok current ∧
        SavedBlock.plainName current.name = name ∧ config.ignoresBlock name = false := by
  obtain ⟨-, hslots, -⟩ := cleanPalette_spec h
  constructor
  · rintro ⟨slot, block, hblock, rfl⟩
    rw [hslots] at hblock
    obtain ⟨saved, hsaved, hcurrent⟩ := Option.bind_eq_some_iff.mp hblock
    obtain ⟨current, hupdated, hkept, rfl⟩ := SavedBlock.current?_eq_some_iff.mp hcurrent
    exact ⟨saved, List.mem_of_getElem? hsaved, current, hupdated, rfl, hkept⟩
  · rintro ⟨saved, hsaved, current, hcurrent, rfl, hkept⟩
    obtain ⟨slot, hslot⟩ := List.mem_iff_getElem?.mp hsaved
    refine ⟨slot, ⟨_, current.states, current.entityData⟩, ?_, rfl⟩
    rw [hslots, hslot]
    exact SavedBlock.current?_eq_some_iff.mpr ⟨current, hcurrent, hkept, rfl⟩

/-- No name dies with a slot, since a voxel that moved away from it keeps the name. -/
theorem hasName_of_ofSaved {s : SavedStructure} {n : Structure} {reports : List Report}
    (h : ofSaved config upgrader s = .ok (n, reports)) {name : String} :
    n.palette.HasName name ↔ ∃ saved ∈ s.palette, ∃ current,
      upgrader.updateIfOutdated saved = .ok current ∧
        SavedBlock.plainName current.name = name ∧ config.ignoresBlock name = false := by
  obtain ⟨primary, others, palette, folded, retired, -, hclean, hfolded, hnew, hpalette,
    hretired⟩ := ofSaved_retires h
  have hinherits : Folding.Inherits s.payloads.entries folded :=
    hfolded ▸ Folding.foldl_of_ascending Folding.Inherits.add
      (Folding.inherits_start palette primary) s.payloads.ascending
  rw [← hasName_cleanPalette hclean, hpalette,
    ← Folding.hasName_foldl { palette, primary } s.payloads.entries, hfolded]
  constructor
  · rintro ⟨slot, block, hblock, hname⟩
    exact ⟨slot, block, Palette.block?_of_foldl_bury retired hblock, hname⟩
  · rintro ⟨slot, block, hblock, hname⟩
    by_cases hdead : slot ∈ retired
    · -- the slot that the heir refers to is in use, so it did not die
      obtain ⟨-, hbase, -⟩ := (hretired slot).mp hdead
      obtain ⟨entry, -, moved, old, heir, hold, hr, hheir, hsame⟩ := hinherits.heir slot hbase
      rw [hblock, Option.some_inj] at hold
      subst hold
      have hused : folded.primary ∈ n.layers := hnew ▸ List.mem_cons_self
      have hkept : (retired.foldl Palette.bury folded.palette).get? moved =
          folded.palette.get? moved :=
        get?_of_mem (fun dead hmem => ((hretired dead).mp hmem).2.2) hused
          (Array.mem_of_getElem? hr)
      rw [Palette.get?_natCast, Palette.get?_natCast, hheir] at hkept
      exact ⟨moved, heir, hkept, hsame.trans hname⟩
    · exact ⟨slot, block, (Palette.block?_foldl_bury retired _ hdead).trans hblock, hname⟩

/-- The names in a clean palette are the present names of what was saved, once without the namespace
of the game, but for those that are left out. So a clean palette has an empty name, or one in the
namespace of the game, exactly when what was saved and is not left out is at present without a name,
has none but the namespace, or has the namespace twice. -/
theorem names_of_ofSaved {s : SavedStructure} {n : Structure} {reports : List Report}
    (h : ofSaved config upgrader s = .ok (n, reports)) :
    (∀ slot block, n.palette.block? slot = some block →
      config.ignoresBlock block.name = false) ∧
    (∀ name, n.palette.HasName name ↔ ∃ saved ∈ s.palette, ∃ current,
      upgrader.updateIfOutdated saved = .ok current ∧
        SavedBlock.plainName current.name = name ∧ config.ignoresBlock name = false) ∧
    ((∀ slot block, n.palette.block? slot = some block →
        block.name ≠ "" ∧ ¬ "minecraft:".toList <+: block.name.toList) ↔
      ∀ saved ∈ s.palette, ∀ current, upgrader.updateIfOutdated saved = .ok current →
        config.ignoresBlock (SavedBlock.plainName current.name) = false →
          current.name ≠ "" ∧ current.name ≠ "minecraft:" ∧
            ¬ "minecraft:minecraft:".toList <+: current.name.toList) := by
  have hnames := @hasName_of_ofSaved config upgrader s n reports h
  refine ⟨fun slot block hblock => ?_, fun name => hnames, fun hclean => ?_, fun hclean => ?_⟩
  · obtain ⟨saved, -, current, -, -, hkept⟩ := hnames.mp ⟨slot, block, hblock, rfl⟩
    exact hkept
  · intro saved hsaved current hcurrent hkept
    obtain ⟨slot, block, hblock, hname⟩ := hnames.mpr ⟨saved, hsaved, current, hcurrent, rfl, hkept⟩
    obtain ⟨hempty, hgame⟩ := hclean slot block hblock
    rw [hname] at hempty hgame
    rw [ne_eq, SavedBlock.plainName_eq_empty_iff, not_or] at hempty
    rw [SavedBlock.game_isPrefix_plainName_iff] at hgame
    exact ⟨hempty.1, hempty.2, hgame⟩
  · intro slot block hblock
    obtain ⟨saved, hsaved, current, hcurrent, hname, hkept⟩ :=
      hnames.mp ⟨slot, block, hblock, rfl⟩
    obtain ⟨hnamed, hgame, htwice⟩ := hclean saved hsaved current hcurrent (hname ▸ hkept)
    rw [← hname, ne_eq, SavedBlock.plainName_eq_empty_iff, not_or,
      SavedBlock.game_isPrefix_plainName_iff]
    exact ⟨⟨hnamed, hgame⟩, htwice⟩

/-- A block that was saved with the namespace of the game and no name. -/
def namedByGame : SavedStructure where
  name := "game"
  size := ⟨1, 1, 2⟩
  palette := [⟨"minecraft:", [], none, none⟩, ⟨"minecraft:stone", [], none, none⟩]
  layers := [#[0, 1]]

theorem names_of_ofSaved_namedByGame :
    ∃ n reports, ofSaved .standard .keep namedByGame = .ok (n, reports) ∧
      (∀ slot block, n.palette.block? slot = some block →
        Config.standard.ignoresBlock block.name = false) ∧
      (∀ name, n.palette.HasName name ↔ ∃ saved ∈ namedByGame.palette, ∃ current,
        Upgrader.updateIfOutdated .keep saved = .ok current ∧
          SavedBlock.plainName current.name = name ∧
          Config.standard.ignoresBlock name = false) ∧
      ((∀ slot block, n.palette.block? slot = some block →
          block.name ≠ "" ∧ ¬ "minecraft:".toList <+: block.name.toList) ↔
        ∀ saved ∈ namedByGame.palette, ∀ current,
          Upgrader.updateIfOutdated .keep saved = .ok current →
          Config.standard.ignoresBlock (SavedBlock.plainName current.name) = false →
            current.name ≠ "" ∧ current.name ≠ "minecraft:" ∧
              ¬ "minecraft:minecraft:".toList <+: current.name.toList) := by
  have hok : (ofSaved .standard .keep namedByGame).toOption.isSome = true := by decide +kernel
  cases h : ofSaved .standard .keep namedByGame with
  | error e =>
    rw [h] at hok
    contradiction
  | ok result => exact ⟨result.1, result.2, rfl, names_of_ofSaved h⟩

/-- So the names in a clean palette need not be clean: this one comes to have a block without a
name. -/
theorem names_not_always_clean :
    ¬ ∀ (config : Config) (upgrader : Upgrader) (s : SavedStructure) (n : Structure)
      (reports : List Report), ofSaved config upgrader s = .ok (n, reports) →
      ∀ slot block, n.palette.block? slot = some block →
        block.name ≠ "" ∧ config.ignoresBlock block.name = false ∧
          ¬ "minecraft:".toList <+: block.name.toList := by
  intro hclean
  have hok : ((ofSaved .standard .keep namedByGame).toOption.any fun result =>
      (result.1.palette.block? 0).any fun block => block.name == "") = true := by
    decide +kernel
  cases h : ofSaved .standard .keep namedByGame with
  | error e =>
    rw [h] at hok
    contradiction
  | ok result =>
    rw [h] at hok
    cases hblock : result.1.palette.block? 0 with
    | none => simp [Except.toOption, hblock] at hok
    | some block =>
      have hname : block.name = "" := by simpa [Except.toOption, hblock] using hok
      exact (hclean _ _ _ result.1 result.2 h 0 block hblock).1 hname

end Structure

end Hologram
