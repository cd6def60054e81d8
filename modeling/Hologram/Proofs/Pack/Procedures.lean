import Hologram.Pack.EntityScript
import Hologram.Proofs.Dictionary
import Hologram.Proofs.Script.Templates

/-! The procedures that the scripts of the entity are written as, with placeholders for what depends
on the settings and the structures. They are compiled to the code of the two scripts. -/
namespace Hologram.EntityScripts

open Script

/-- The procedure that runs once, line by line. -/
def setupLines : List String :=
  ["// Runs once when the hologram entity spawns.",
    "v.hologram.rendering = 1;",
    "v.hologram.validating = 0;",
    "v.hologram.show_tint = 0;",
    "v.hologram.opacity = 0;",
    "v.hologram.layer = -1;",
    "v.hologram.layer_mode = $[single_layer_mode];",
    "v.hologram.structure_index = 0;",
    "v.hologram.structure_count = $[structure_count];",
    "v.hologram.rotation = 0;",
    "v.hologram.backup_slot = -1;",
    "v.hologram.saving_backup = 0;",
    "v.hologram.last_action = $[ACTIONS.NONE];",
    "v.hologram.was_sneaking = 0;",
    "v.hologram.controls_disabled = 0;",
    "v.hologram.offset_x = $[initial_offset[0]];",
    "v.hologram.offset_y = $[initial_offset[1]];",
    "v.hologram.offset_z = $[initial_offset[2]];",
    "v.hologram.structure_w = $[structure_size[0]];",
    "v.hologram.structure_h = $[structure_size[1]];",
    "v.hologram.structure_d = $[structure_size[2]];"]

/-- The procedure that runs in every frame, line by line. -/
def frameLines : List String :=
  ["// Runs every frame before animations. Sizes and counts follow the selected",
    "// structure; held items act when the player starts sneaking.",
    "v.hologram.structure_w = $[structure_w];",
    "v.hologram.structure_h = $[structure_h];",
    "v.hologram.structure_d = $[structure_d];",
    "if (v.hologram.layer >= v.hologram.structure_h) \x7b",
    "    v.hologram.layer = v.hologram.structure_h - 1;",
    "\x7d",
    "v.hologram.total_blocks_to_validate = $[total_blocks_to_validate];",
    "v.hologram.total_blocks_to_validate_layer = $[total_blocks_to_validate_by_layer];",
    "",
    "v.hologram.saving_backup = 0;",
    "v.hologram.sneak_started = q.is_sneaking && !v.hologram.was_sneaking;",
    "v.hologram.was_sneaking = q.is_sneaking;",
    "",
    "if (v.hologram.sneak_started && $[disable_player_controls]) \x7b",
    "    v.hologram.last_action = $[ACTIONS.DISABLE_PLAYER_CONTROLS];",
    "    v.hologram.controls_disabled = !v.hologram.controls_disabled;",
    "\x7d else if (v.hologram.sneak_started && !v.hologram.controls_disabled) \x7b",
    "    if ($[toggle_rendering]) \x7b",
    "        v.hologram.last_action = $[ACTIONS.TOGGLE_RENDERING];",
    "        v.hologram.rendering = !v.hologram.rendering;",
    "    \x7d else if ($[change_opacity]) \x7b",
    "        v.hologram.last_action = $[ACTIONS.CHANGE_OPACITY];",
    "        v.hologram.opacity = math.mod(v.hologram.opacity + 1, 4);",
    "    \x7d else if ($[toggle_tint]) \x7b",
    "        v.hologram.last_action = $[ACTIONS.TOGGLE_TINT];",
    "        v.hologram.show_tint = !v.hologram.show_tint;",
    "    \x7d else if ($[toggle_validating]) \x7b",
    "        v.hologram.last_action = $[ACTIONS.TOGGLE_VALIDATING];",
    "        v.hologram.validating = !v.hologram.validating;",
    "    \x7d else if ($[change_layer]) \x7b",
    "        v.hologram.last_action = $[ACTIONS.CHANGE_LAYER];",
    "        v.hologram.layer++;",
    "        if (v.hologram.layer >= v.hologram.structure_h) \x7b",
    "            v.hologram.layer = -1;",
    "        \x7d",
    "    \x7d else if ($[decrease_layer]) \x7b",
    "        v.hologram.last_action = $[ACTIONS.DECREASE_LAYER];",
    "        v.hologram.layer--;",
    "        if (v.hologram.layer < -1) \x7b",
    "            v.hologram.layer = v.hologram.structure_h - 1;",
    "        \x7d",
    "    \x7d else if ($[change_layer_mode]) \x7b",
    "        v.hologram.last_action = $[ACTIONS.CHANGE_LAYER_MODE];",
    "        v.hologram.layer_mode = v.hologram.layer_mode == $[single_layer_mode] ? $[all_below_layer_mode] : $[single_layer_mode];",
    "    \x7d else if ($[move_hologram]) \x7b",
    "        v.hologram.last_action = $[ACTIONS.MOVE_HOLOGRAM];",
    "        v.hologram.offset_y += 1;",
    "    \x7d else if ($[rotate_hologram]) \x7b",
    "        v.hologram.last_action = $[ACTIONS.ROTATE_HOLOGRAM];",
    "        v.hologram.rotation = math.mod(v.hologram.rotation + 1, 4);",
    "    \x7d else if ($[change_structure]) \x7b",
    "        v.hologram.last_action = $[ACTIONS.CHANGE_STRUCTURE];",
    "        v.hologram.structure_index = math.mod(v.hologram.structure_index + 1, v.hologram.structure_count);",
    "    \x7d else if ($[backup_hologram]) \x7b",
    "        v.hologram.last_action = $[ACTIONS.BACKUP_HOLOGRAM];",
    "        v.hologram.backup_slot = math.mod(v.hologram.backup_slot + 1, $[backup_slot_count]);",
    "        v.hologram.saving_backup = 1;",
    "    \x7d",
    "\x7d"]

/-- The name of a control in placeholders, where it stands for the query of its items. -/
def queryName (control : Control) : String :=
  String.ofList (control.name.toList.map Char.toLower)

/-- What the procedures refer to. -/
def bindings (config : Config) (first : Size) (sizes : List Size) (validations : List Validation) :
    Bindings :=
  let table (numbers : List Nat) : Constant :=
    .code <|
      Lookup.ofList config.arraySplitThreshold Variable.structureIndex.name (numbers.map toString)
  let tables (rows : List (List Nat)) : Constant :=
    .code <|
      Lookup.ofRows config.arraySplitThreshold Variable.structureIndex.name Variable.layer.name
        (rows.map fun row => row.map toString)
  [("structure_count", .int sizes.length),
    ("structure_size", .sequence [.int first.width, .int first.height, .int first.depth]),
    ("initial_offset", .sequence
      [.int config.initialOffset.x, .int config.initialOffset.y, .int config.initialOffset.z]),
    ("single_layer_mode", .int LayerMode.single.number),
    ("all_below_layer_mode", .int LayerMode.allBelow.number),
    ("backup_slot_count", .int config.backupSlotCount),
    ("structure_w", table (sizes.map (·.width))),
    ("structure_h", table (sizes.map (·.height))),
    ("structure_d", table (sizes.map (·.depth))),
    ("total_blocks_to_validate", table (validations.map (·.blocks.length))),
    ("total_blocks_to_validate_by_layer", tables (validations.map (·.counts))),
    ("ACTIONS", .mapping (actionIds.map fun (name, id) => (name, .int id)))] ++
  Control.all.map fun control =>
    (queryName control, .code ((config.criteria control).code heldItemSlot))

section

variable {config : Config} {first : Size} {sizes : List Size} {validations : List Validation}

theorem distinct_bindings : (bindings config first sizes validations).Distinct := by
  have hnames : (bindings config first sizes validations).map Prod.fst =
      ["structure_count", "structure_size", "initial_offset", "single_layer_mode",
        "all_below_layer_mode", "backup_slot_count", "structure_w", "structure_h", "structure_d",
        "total_blocks_to_validate", "total_blocks_to_validate_by_layer", "ACTIONS"] ++
      Control.all.map queryName := rfl
  unfold Dictionary.Distinct
  rw [hnames]
  decide +kernel

theorem resolves_holds (control : Control) :
    ResolvesTo (bindings config first sizes validations) .primary
      (Placeholder.yield ⟨queryName control, none, none⟩) (holds config control) := by
  have hname : Parser.placeholderName (queryName control) = (queryName control, none) := by
    cases control <;> decide +kernel
  have hvalue : (bindings config first sizes validations).get? (queryName control) =
      some (.code ((config.criteria control).code heldItemSlot)) :=
    distinct_bindings.get?_eq_some_iff.mpr
      (List.mem_append_right _ (List.mem_map_of_mem control.mem_all))
  exact .binding hname hvalue rfl

/-- The number of an action, or of none. -/
theorem resolves_actionId {name : String} {id : Nat} (h : (name, id) ∈ actionIds) :
    ResolvesTo (bindings config first sizes validations) .primary
      (Placeholder.yield ⟨"ACTIONS", some (.field name), none⟩) (.int id) := by
  have hnames : ∀ entry ∈ actionIds, Parser.placeholderName ("ACTIONS" ++ "." ++ entry.1) =
      ("ACTIONS", some (.field entry.1)) := by
    decide +kernel
  have hdistinct : Dictionary.Distinct actionIds := by
    unfold Dictionary.Distinct
    decide +kernel
  have hvalue := (hdistinct.map fun id : Nat => Constant.int id).get?_eq_some_iff.mpr
    (List.mem_map.mpr ⟨_, h, rfl⟩)
  exact .field (hnames _ h) rfl hvalue rfl

end

section

variable {b : Bindings} {next : Option Token} {ts us vs ws : List Token} {e : Expression}
  {code others : Code}

theorem resolves_get (v : Variable) : ResolvesTo b .unary [.identifier v.name] v.get :=
  .unary (.name v.name)

theorem resolves_shifted (op : BinaryOperator) (v : Variable) :
    ResolvesTo b (.binary 1) [.identifier v.name, .operator op, .int 1] (shifted op v) :=
  .binary op (resolves_get v) (.unary (.int 1))

theorem resolves_isAboveTop :
    ResolvesTo b (.binary 1) [.identifier Variable.layer.name, .operator .greaterEqual,
      .identifier Variable.structureHeight.name] isAboveTop :=
  .binary .greaterEqual (resolves_get .layer) (resolves_get .structureHeight)

theorem unrolls_set (v : Variable) (h : ResolvesTo b .primary ts e) :
    UnrollsTo b .statement next (.identifier v.name :: .assign :: (ts ++ [.semicolon]))
      [v.set e] :=
  .assign v.name (.whole (.unary h))

theorem unrolls_start (v : Variable) (n : Nat) :
    UnrollsTo b .statement next [.identifier v.name, .assign, .int n, .semicolon] [start v n] :=
  unrolls_set v (.int n)

theorem unrolls_start_negative (v : Variable) :
    UnrollsTo b .statement next
      [.identifier v.name, .assign, .operator .subtract, .int 1, .semicolon] [start v (-1)] :=
  .assign v.name (.whole (.negative 1))

theorem unrolls_toggle (v : Variable) :
    UnrollsTo b .statement next
      [.identifier v.name, .assign, .bang, .identifier v.name, .semicolon] [toggle v] :=
  .assign v.name (.whole (.not (resolves_get v)))

theorem unrolls_cycle (v : Variable) (h : ResolvesTo b .primary ts e) :
    UnrollsTo b .statement next
      (.identifier v.name :: .assign :: (.identifier "math.mod" :: .leftParen ::
        ([.identifier v.name, .operator .add, .int 1] ++ .comma :: (ts ++ [.rightParen])) ++
          [.semicolon])) [cycle v e] :=
  unrolls_set v (.call "math.mod" (.condition (resolves_shifted .add v)) (.whole (.unary h)))

theorem unrolls_selectTop :
    UnrollsTo b .statement next
      [.identifier Variable.layer.name, .assign, .identifier Variable.structureHeight.name,
        .operator .subtract, .int 1, .semicolon] [selectTop] :=
  .assign Variable.layer.name (.condition (resolves_shifted .subtract .structureHeight))

/-- One statement in braces. -/
theorem unrolls_only (h : UnrollsTo b .statement (some .rightBrace) ts code) :
    UnrollsTo b .statements (some .rightBrace) (ts ++ []) code :=
  List.append_nil code ▸ .cons h .nil

variable {config : Config} {control : Control}

/-- What a control does stands behind the note that it was used. -/
theorem unrolls_action (hid : ResolvesTo b .primary us (.int control.actionId))
    (heffect : UnrollsTo b .statements (some .rightBrace) ts (effect config control)) :
    UnrollsTo b .block next
      (.leftBrace :: (.identifier Variable.lastAction.name :: .assign :: (us ++ [.semicolon]) ++
        ts ++ [.rightBrace])) (action config control) :=
  .braced (.cons (unrolls_set .lastAction hid) heffect)

/-- A control whose item is held goes before others. -/
theorem unrolls_choice (hholds : ResolvesTo b .primary vs (holds config control))
    (hid : ResolvesTo b .primary us (.int control.actionId))
    (heffect : UnrollsTo b .statements (some .rightBrace) ts (effect config control))
    (hothers : UnrollsTo b .statement next ws others) :
    UnrollsTo b .statement next
      (.ifWord :: .leftParen :: (vs ++ .rightParen ::
        (.leftBrace :: (.identifier Variable.lastAction.name :: .assign :: (us ++ [.semicolon]) ++
          ts ++ [.rightBrace]) ++ .elseWord :: ws)))
      [.branch (holds config control) (action config control) others] :=
  .branch (.whole (.unary hholds)) (unrolls_action hid heffect) (.single hothers)

end

section

variable (config : Config) (first : Size) (sizes : List Size) (validations : List Validation)

/-- The tokens of the first procedure are unrolled to the first script. -/
theorem exists_setup : ∃ ts, tokensOf (ofLines setupLines) = .ok ts ∧
    UnrollsTo (bindings config first sizes validations) .statements none ts
      (setupCode config sizes.length first) := by
  have hname : ∀ name ∈ ["structure_count", "structure_size", "initial_offset",
      "single_layer_mode"], Parser.placeholderName name = (name, none) := by
    decide +kernel
  have hoffset := hname "initial_offset" (by simp)
  have hsize := hname "structure_size" (by simp)
  refine ⟨_, ?_,
    .cons (unrolls_start .rendering 1) <|
    .cons (unrolls_start .validating 0) <|
    .cons (unrolls_start .showTint 0) <|
    .cons (unrolls_start .opacity 0) <|
    .cons (unrolls_start_negative .layer) <|
    .cons (unrolls_set .layerMode (.binding (hname "single_layer_mode" (by simp)) rfl rfl)) <|
    .cons (unrolls_start .structureIndex 0) <|
    .cons (unrolls_set .structureCount (.binding (hname "structure_count" (by simp)) rfl rfl)) <|
    .cons (unrolls_start .rotation 0) <|
    .cons (unrolls_start_negative .backupSlot) <|
    .cons (unrolls_start .savingBackup 0) <|
    .cons (unrolls_set .lastAction (resolves_actionId (.head _))) <|
    .cons (unrolls_start .wasSneaking 0) <|
    .cons (unrolls_start .controlsDisabled 0) <|
    .cons (unrolls_set .offsetX (.entry (n := 0) hoffset rfl rfl rfl)) <|
    .cons (unrolls_set .offsetY (.entry (n := 1) hoffset rfl rfl rfl)) <|
    .cons (unrolls_set .offsetZ (.entry (n := 2) hoffset rfl rfl rfl)) <|
    .cons (unrolls_set .structureWidth (.entry (n := 0) hsize rfl rfl rfl)) <|
    .cons (unrolls_set .structureHeight (.entry (n := 1) hsize rfl rfl rfl)) <|
    .cons (unrolls_set .structureDepth (.entry (n := 2) hsize rfl rfl rfl)) <|
    .nil⟩
  refine tokensOf_ofLines ?_
  simp only [setupLines, List.map_cons, List.map_nil]
  -- the characters of a literal are cheap for the kernel, its bytes are not
  repeat rw [String.toList_ofList]
  decide +kernel

/-- The tokens of the second procedure are unrolled to the second script. -/
theorem exists_frame : ∃ ts, tokensOf (ofLines frameLines) = .ok ts ∧
    UnrollsTo (bindings config first sizes validations) .statements none ts
      (frameCode config sizes validations) := by
  have hname : ∀ name ∈ ["single_layer_mode", "all_below_layer_mode", "backup_slot_count",
      "structure_w", "structure_h", "structure_d", "total_blocks_to_validate",
      "total_blocks_to_validate_by_layer"], Parser.placeholderName name = (name, none) := by
    decide +kernel
  let b := bindings config first sizes validations
  have hslots : ResolvesTo b _ _ _ := .binding (hname "backup_slot_count" (by simp)) rfl rfl
  have hsingle : ResolvesTo b _ _ _ := .binding (hname "single_layer_mode" (by simp)) rfl rfl
  have hbelow : ResolvesTo b _ _ _ := .binding (hname "all_below_layer_mode" (by simp)) rfl rfl
  have hholds : ∀ control, ResolvesTo b _ _ _ := @resolves_holds config first sizes validations
  have hid : ∀ control : Control, ResolvesTo b _ _ _ := fun control =>
    resolves_actionId (.tail _ (List.mem_map.mpr ⟨control, control.mem_all, rfl⟩))
  have hincrease : UnrollsTo b .statements (some .rightBrace) _ (effect config .changeLayer) :=
    .cons (.count .up Variable.layer.name) (unrolls_only
      (.guarded (.condition resolves_isAboveTop)
        (.braced (unrolls_only (unrolls_start_negative .layer))) (by decide)))
  have hdecrease : UnrollsTo b .statements (some .rightBrace) _ (effect config .decreaseLayer) :=
    .cons (.count .down Variable.layer.name) (unrolls_only
      (.guarded (.condition (.binary .less (resolves_get .layer) (.negative 1)))
        (.braced (unrolls_only unrolls_selectTop)) (by decide)))
  have hmode : UnrollsTo b .statements (some .rightBrace) _ (effect config .changeLayerMode) :=
    unrolls_only (.assign Variable.layerMode.name
      (.conditional (.binary .equal (resolves_get .layerMode) (.unary hsingle))
        (.whole (.unary hbelow)) (.whole (.unary hsingle))))
  have hmove : UnrollsTo b .statements (some .rightBrace) _ (effect config .moveHologram) :=
    unrolls_only (.combined .add Variable.offsetY.name 1)
  have hbackup : UnrollsTo b .statements (some .rightBrace) _ (effect config .backupHologram) :=
    .cons (unrolls_cycle .backupSlot hslots) (unrolls_only (unrolls_start .savingBackup 1))
  have hchoice : UnrollsTo b .statement (some .rightBrace) _
      (firstAction config ordinaryControls) :=
    unrolls_choice (hholds .toggleRendering) (hid _) (unrolls_only (unrolls_toggle .rendering)) <|
    unrolls_choice (hholds .changeOpacity) (hid _)
      (unrolls_only (unrolls_cycle .opacity (.int 4))) <|
    unrolls_choice (hholds .toggleTint) (hid _) (unrolls_only (unrolls_toggle .showTint)) <|
    unrolls_choice (hholds .toggleValidating) (hid _)
      (unrolls_only (unrolls_toggle .validating)) <|
    unrolls_choice (hholds .changeLayer) (hid _) hincrease <|
    unrolls_choice (hholds .decreaseLayer) (hid _) hdecrease <|
    unrolls_choice (hholds .changeLayerMode) (hid _) hmode <|
    unrolls_choice (hholds .moveHologram) (hid _) hmove <|
    unrolls_choice (hholds .rotateHologram) (hid _)
      (unrolls_only (unrolls_cycle .rotation (.int 4))) <|
    unrolls_choice (hholds .changeStructure) (hid _)
      (unrolls_only (unrolls_cycle .structureIndex (.name _))) <|
    .guarded (.whole (.unary (hholds .backupHologram))) (unrolls_action (hid _) hbackup)
      (by decide)
  have hactions : UnrollsTo b .statement none _ [actions config] :=
    .branch
      (.condition (.binary .and (resolves_get .sneakStarted)
        (.unary (hholds .disablePlayerControls))))
      (unrolls_action (hid _) (unrolls_only (unrolls_toggle .controlsDisabled)))
      (.single (.guarded
        (.condition (.binary .and (resolves_get .sneakStarted)
          (.not (resolves_get .controlsDisabled))))
        (.braced (unrolls_only hchoice)) nofun))
  refine ⟨_, ?_,
    .cons (unrolls_set .structureWidth (.binding (hname "structure_w" (by simp)) rfl rfl)) <|
    .cons (unrolls_set .structureHeight (.binding (hname "structure_h" (by simp)) rfl rfl)) <|
    .cons (unrolls_set .structureDepth (.binding (hname "structure_d" (by simp)) rfl rfl)) <|
    .cons (.guarded (.condition resolves_isAboveTop) (.braced (unrolls_only unrolls_selectTop))
      (by decide)) <|
    .cons (unrolls_set .blocksToValidate
      (.binding (hname "total_blocks_to_validate" (by simp)) rfl rfl)) <|
    .cons (unrolls_set .blocksToValidateInLayer
      (.binding (hname "total_blocks_to_validate_by_layer" (by simp)) rfl rfl)) <|
    .cons (unrolls_start .savingBackup 0) <|
    .cons (.assign Variable.sneakStarted.name
      (.condition (.binary .and (.unary (.name "q.is_sneaking"))
        (.not (resolves_get .wasSneaking))))) <|
    .cons (unrolls_set .wasSneaking (.name "q.is_sneaking")) <|
    .cons hactions .nil⟩
  refine tokensOf_ofLines ?_
  simp only [frameLines, List.map_cons, List.map_nil]
  repeat rw [String.toList_ofList]
  decide +kernel

/-- The first procedure is unrolled to the first script. -/
theorem unroll_setup : ∃ p, Procedure.ofText (ofLines setupLines) = .ok p ∧ ∀ limit,
    p.unroll (bindings config first sizes validations) limit =
      .ok (setupCode config sizes.length first) :=
  let ⟨_, htext, h⟩ := exists_setup config first sizes validations
  h.exists_ofText htext

/-- The second procedure is unrolled to the second script. -/
theorem unroll_frame : ∃ p, Procedure.ofText (ofLines frameLines) = .ok p ∧ ∀ limit,
    p.unroll (bindings config first sizes validations) limit =
      .ok (frameCode config sizes validations) :=
  let ⟨_, htext, h⟩ := exists_frame config first sizes validations
  h.exists_ofText htext

end

/-- The texts of the scripts for some structures are those that the procedures are compiled to. -/
theorem compile_of_ofStructures {config : Config} {sizes : List Size}
    {validations : List Validation} {scripts : EntityScripts}
    (h : ofStructures config sizes validations = .ok scripts) :
    ∃ first rest, sizes = first :: rest ∧
      compile (ofLines setupLines) (bindings config first sizes validations) =
        .ok scripts.setup.text ∧
      compile (ofLines frameLines) (bindings config first sizes validations) =
        .ok scripts.frame.text := by
  unfold ofStructures at h
  split at h
  · contradiction
  · rename_i first rest
    cases h
    obtain ⟨p, hp, hsetup⟩ := unroll_setup config first (first :: rest) validations
    obtain ⟨q, hq, hframe⟩ := unroll_frame config first (first :: rest) validations
    exact ⟨first, rest, rfl, compileWithin_of_ofText hp (hsetup _),
      compileWithin_of_ofText hq (hframe _)⟩

end Hologram.EntityScripts
