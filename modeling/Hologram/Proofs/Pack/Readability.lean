import Hologram.Proofs.Pack.Refreshing

/-! The scripts of the entity are read from their text as what they are. -/
namespace Hologram

open Script

namespace EntityScripts

variable {config : Config}

theorem faithful_int {n : Int} (hn : n.natAbs ≤ 2 ^ 53) : (Expression.int n).Faithful := by
  obtain ⟨hleast, hgreatest⟩ := Number.Width.between_of_natAbs_le hn
  exact Expression.faithful_int hleast hgreatest

theorem faithful_shifted (operator : BinaryOperator) (v : Variable) :
    (shifted operator v).Faithful := by
  have hsigns : (shifted operator v).signsApart = true := by
    cases operator <;> rfl
  refine List.forall_mem_cons.mpr ⟨⟨trivial, hsigns, trivial⟩, ?_⟩
  exact List.forall_mem_append.mpr ⟨v.faithful_get, faithful_int (by decide)⟩

theorem faithful_remainder {a b : Expression} (ha : a.Faithful) (hb : b.Faithful) :
    (Expression.call "math.mod" [a, b]).Faithful := by
  have hname : Lexer.isName "math.mod" = true := by decide
  refine List.forall_mem_cons.mpr ⟨⟨hname, rfl, hname⟩, ?_⟩
  simp only [Expression.partsOfAll, List.append_nil]
  exact List.forall_mem_append.mpr ⟨ha, hb⟩

theorem readable_set {v : Variable} {e : Expression} {rest : Code} (he : e.ReadsBack)
    (hrest : rest.Readable) : Code.Readable (v.set e :: rest) :=
  ⟨⟨⟨v.name, rfl, v.isName_name⟩, he⟩, hrest⟩

theorem readable_start {v : Variable} {n : Int} {rest : Code} (hn : n.natAbs ≤ 2 ^ 53)
    (hrest : rest.Readable) : Code.Readable (start v n :: rest) :=
  readable_set (faithful_int hn).readsBack hrest

theorem readable_cycle {v : Variable} {count : Expression} {rest : Code} (hcount : count.Faithful)
    (hrest : rest.Readable) : Code.Readable (cycle v count :: rest) :=
  readable_set (faithful_remainder (faithful_shifted .add v) hcount).readsBack hrest

/-- A comparison is read as a condition. -/
theorem readable_guarded {op : BinaryOperator} {a b : Expression} {code : Code}
    (h : (Expression.binary op a b).Faithful) (hcode : code.Readable) :
    Code.Readable [.branch (.binary op a b) code []] :=
  ⟨⟨h.readsBack.asCondition trivial, hcode, trivial⟩, trivial⟩

theorem readable_selectTop : Code.Readable [selectTop] :=
  readable_set (faithful_shifted .subtract .structureHeight).readsBack trivial

theorem faithful_isAboveTop : isAboveTop.Faithful :=
  faithful_chained (by decide) Variable.layer.faithful_get
    (List.forall_mem_singleton.mpr Variable.structureHeight.faithful_get)

/-- What a control does is read as its code. -/
theorem readable_effect (h : config.backupSlotCount < 2 ^ 32) (control : Control) :
    (effect config control).Readable := by
  cases control with
  | toggleRendering | toggleTint | toggleValidating | disablePlayerControls =>
    exact readable_set (Variable.faithful_negation _).readsBack trivial
  | changeOpacity | rotateHologram => exact readable_cycle (faithful_int (by decide)) trivial
  | changeLayer =>
    apply readable_set (faithful_shifted .add .layer).readsBack
    exact readable_guarded faithful_isAboveTop (readable_start (by decide) trivial)
  | decreaseLayer =>
    apply readable_set (faithful_shifted .subtract .layer).readsBack
    apply readable_guarded _ readable_selectTop
    exact Variable.faithful_compare (by decide) .layer (by decide)
  | changeLayerMode =>
    have hsingle : (Variable.layerMode.compare .equal LayerMode.single.number).Faithful :=
      Variable.faithful_compare (by decide) .layerMode (by decide)
    have hmode : (Expression.conditional
        (Variable.layerMode.compare .equal LayerMode.single.number)
        (.int LayerMode.allBelow.number) (.int LayerMode.single.number)).Faithful :=
      hsingle.conditional (faithful_int (by decide)) (faithful_int (by decide))
    exact readable_set hmode.readsBack trivial
  | moveHologram => exact readable_set (faithful_shifted .add .offsetY).readsBack trivial
  | changeStructure => exact readable_cycle Variable.structureCount.faithful_get trivial
  | backupHologram =>
    apply readable_cycle (faithful_int (by omega))
    exact readable_start (by decide) trivial

theorem readable_action (h : config.backupSlotCount < 2 ^ 32) (control : Control) :
    (action config control).Readable :=
  readable_start control.natAbs_actionId_le (readable_effect h control)

theorem readable_firstAction (hconfig : config.Quotable) (h : config.backupSlotCount < 2 ^ 32)
    (controls : List Control) : (firstAction config controls).Readable := by
  induction controls with
  | nil => trivial
  | cons control others ih =>
    have hcondition := ItemCriteria.readsAs_asCondition (hconfig control)
      (show '\'' ∉ heldItemSlot.toList by decide)
    exact ⟨⟨hcondition, readable_action h control, ih⟩, trivial⟩

/-- A condition on the start of sneaking is read where it stands. -/
theorem readsAs_whenSneakStarted {c : Expression} (hc : c.ReadsBack) :
    ReadsAs ((whenSneakStarted c).asCondition (whenSneakStarted c).text) (.binary 1)
      (whenSneakStarted c).settled := by
  have hstarted : Variable.sneakStarted.get.ReadsBack :=
    Variable.sneakStarted.faithful_get.readsBack
  have hboth : (whenSneakStarted c).ReadsBack := by
    intro j hj _
    exact (Expression.readsAs_binary hstarted hc rfl).of_binary hj
      (Nat.lt_of_le_of_lt hj BinaryOperator.and.precedence_lt_unary)
  exact hboth.asCondition trivial

theorem readable_actions (hconfig : config.Quotable) (h : config.backupSlotCount < 2 ^ 32) :
    Code.Readable [actions config] := by
  have hdisable := ItemCriteria.readsBack_code (hconfig .disablePlayerControls)
    (show '\'' ∉ heldItemSlot.toList by decide)
  have hfree : Variable.controlsDisabled.negation.ReadsBack :=
    Variable.controlsDisabled.faithful_negation.readsBack
  have hothers := readable_firstAction hconfig h ordinaryControls
  exact ⟨⟨readsAs_whenSneakStarted hdisable, readable_action h _,
    ⟨readsAs_whenSneakStarted hfree, hothers, trivial⟩, trivial⟩, trivial⟩

variable {structures : List (Size × Validation)}

theorem readsBack_perStructure {numbers : List Nat} (h : Lookup.Literals numbers)
    (hlength : numbers.length ≤ 2 ^ 53) : (perStructure config numbers).ReadsBack := by
  apply Expression.readsBack_raw
  exact Lookup.legible_ofList _ Variable.structureIndex.isName_name h hlength

theorem readsBack_perLayer {rows : List (List Nat)}
    (h : ∀ row ∈ rows, Lookup.Literals row ∧ row.length ≤ 2 ^ 53) (hlength : rows.length ≤ 2 ^ 53) :
    (perLayer config rows).ReadsBack := by
  apply Expression.readsBack_raw
  exact Lookup.legible_ofRows _ Variable.structureIndex.isName_name Variable.layer.isName_name h
    hlength

/-- The script of every frame is read as its code. -/
theorem readable_frameCode (hconfig : config.Quotable) (hfits : config.Fits)
    (h : Numbered structures) :
    (frameCode config (structures.map Prod.fst) (structures.map Prod.snd)).Readable := by
  have hlength : structures.length ≤ 2 ^ 53 := h.length_le
  have hextent {extent : Size → Nat} (hextent : ∀ size : Size, extent size ∈ size.extents) :
      (perStructure config ((structures.map Prod.fst).map extent)).ReadsBack :=
    readsBack_perStructure (h.literals_extents hextent) (by simpa using hlength)
  have htotals : (perStructure config ((structures.map Prod.snd).map fun validation =>
      validation.blocks.length)).ReadsBack :=
    readsBack_perStructure h.literals_totals (by simpa using hlength)
  have hcounts : (perLayer config ((structures.map Prod.snd).map (·.counts))).ReadsBack :=
    readsBack_perLayer h.literals_counts (by simpa using hlength)
  have hsneaks : sneaking.Faithful := by
    have hname : Lexer.isName "q.is_sneaking" = true := by decide
    exact List.forall_mem_singleton.mpr ⟨hname, rfl, hname⟩
  have hstarts : (Expression.binary .and sneaking Variable.wasSneaking.negation).Faithful :=
    faithful_chained (by decide) hsneaks
      (List.forall_mem_singleton.mpr Variable.wasSneaking.faithful_negation)
  have hactions := readable_actions hconfig hfits.slots_lt
  refine readable_set (hextent fun _ => .head _) ?_
  refine readable_set (hextent fun _ => .tail _ (.head _)) ?_
  refine readable_set (hextent fun _ => .tail _ (.tail _ (.head _))) ?_
  refine ⟨⟨faithful_isAboveTop.readsBack.asCondition trivial, readable_selectTop, trivial⟩, ?_⟩
  refine readable_set htotals (readable_set hcounts (readable_start (by decide) ?_))
  exact readable_set hstarts.readsBack (readable_set hsneaks.readsBack hactions)

end EntityScripts
end Hologram
