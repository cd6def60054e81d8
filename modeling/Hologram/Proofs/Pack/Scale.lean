import Hologram.Proofs.Dictionary
import Hologram.Proofs.Pack.Controller
import Hologram.Proofs.Pack.Grid
import Hologram.Proofs.Script.Assignments

/-! The scale of the bones at one height. Its code comes from a template with placeholders, and when
it is read again it is the full scale where the selected layer shows the height, and the small one
everywhere else. -/
namespace Hologram.Script

/-- A text of one expression is compiled to the text of what its placeholders leave. -/
theorem compileExpression_of_tokens {text : String} {ts : List Token} {opens : Bool}
    {e resolved : Expression} {bindings : Bindings} (htext : tokensOf text = .ok ts)
    (he : Derives (.expression opens) ts e) (h : e.resolve bindings [] = .ok resolved) :
    compileExpression text bindings = .ok resolved.text := by
  have hforms : Forms .statements none (ts ++ []) ([.eval e] ++ []) :=
    .cons (.last (.eval he) nofun) .nil
  rw [List.append_nil, List.append_nil] at hforms
  have hread : Procedure.ofText text = .ok [.eval e] :=
    Procedure.ofText_eq_ok_iff.mpr ⟨ts, tokensOf_eq_ok_iff.mp htext, hforms⟩
  unfold compileExpression Procedure.unroll
  rw [hread, ok_bind, Procedure.unrollBlock, Procedure.unrollBlock, Procedure.unrollStatement, h]
  rfl

namespace Expression

variable {functions : Functions} {store : Store}

def literal? : Expression → Option Float
  | int n => some (Float.ofInt n)
  | float x => some x
  | _ => none

theorem evaluateWith_of_literal? {e : Expression} {x : Float} (h : e.literal? = some x)
    (rawValue : String → Except EvalError Value) :
    e.evaluateWith functions store rawValue = .ok (.number x) := by
  cases e with
  | int | float =>
    cases h
    rw [evaluateWith]
  | _ => cases h

theorem ofText_of_tokens {text : String} {ts : List Token} {e : Expression}
    (htext : tokensOf text = .ok ts) (he : Derives .primary ts e) : ofText text = .ok e :=
  ofText_eq_ok_iff.mpr ⟨false, ts, tokensOf_eq_ok_iff.mp htext, .of_primary he⟩

theorem readsAs_one : ReadsAs "1.0" (.expression false) (.float 1.0) := by
  have hstep : Lexer.step '1' ['.', '0'] = .ok (some (.float 1.0), ['.', '0'].length) := by
    decide +kernel
  exact ⟨[.float 1.0], Lexer.spells_of_step hstep rfl, .of_primary (.float 1.0)⟩

/-- The last branch of a conditional may be any text that can be read. -/
theorem ofText_conditional {text text' text'' : String} {c s u : Expression}
    (hc : ReadsAs text (.binary 1) c) (hs : ReadsAs text' (.expression false) s)
    (hu : ofText text'' = .ok u) :
    ofText (text ++ "?" ++ text' ++ ":" ++ text'') = .ok (.conditional c s u) := by
  obtain ⟨ts, hts, hc⟩ := hc
  obtain ⟨us, hus, hs⟩ := hs
  obtain ⟨opens, vs, hvs, hu⟩ := ofText_eq_ok_iff.mp hu
  refine ofText_eq_ok_iff.mpr ⟨opens, _, ?_, .conditional hc hs hu⟩
  simp only [String.toList_append, List.append_assoc]
  have hsatisfied := hus (':' :: text''.toList) (.cons (by decide) _)
  refine (hts _ (.cons (by decide) _)).allow.append (Lexer.reads_sign (c := '?') rfl (fun _ => ?_)
    (hsatisfied.allow.append (Lexer.reads_punctuation rfl hvs)))
  exact (hs.endsSigns hsatisfied).joins_eq_false (by decide)

/-- The text of a conditional between a condition that is read from its text and two literals is
worth the literal that the condition selects. -/
theorem evaluateText_conditional {c s u : Expression} {text text' : String} {p : Bool} {x y : Float}
    (hc : c.Faithful) (hdecides : Decides functions store c p)
    (hs : ReadsAs text (.expression false) s) (hu : ofText text' = .ok u)
    (hx : s.literal? = some x) (hy : u.literal? = some y) :
    evaluateText functions store (c.asCondition c.text ++ "?" ++ text ++ ":" ++ text') =
      .ok (.number (if p then x else y)) := by
  have hcondition := hc.readsBack.asCondition (legible_self fun d hd => (hc d hd).1)
  rw [settled_eq_self fun d hd => (hc d hd).2.2] at hcondition
  unfold evaluateText
  rw [ofText_conditional hcondition hs hu]
  dsimp only
  obtain ⟨value, hvalue, rfl⟩ := hdecides fun _ => .error (.unsupported "raw code in raw code")
  rw [evaluateWith, hvalue, ok_bind]
  split_ifs
  · exact evaluateWith_of_literal? hx _
  · exact evaluateWith_of_literal? hy _

end Expression
end Hologram.Script

namespace Hologram.Animation

open Script

/-- The code of the scale, in which the height, the small scale and the number of a mode have
names. -/
def scaleTemplate : String :=
  "v.hologram.layer == -1 || (v.hologram.layer_mode == $[all_below] ? v.hologram.layer >= $[y] : v.hologram.layer == $[y]) ? 1.0 : $[mini_scale]"

def scaleBindings (y : Nat) (miniScale : Float) : Bindings :=
  [("all_below", .int LayerMode.allBelow.number), ("y", .int y), ("mini_scale", .float miniScale)]

def named (name : String) : Expression :=
  .placeholder ⟨name, none, none⟩

def writtenScale : Expression :=
  let shown : Expression :=
    .conditional (.binary .equal Variable.layerMode.get (named "all_below"))
      (.binary .greaterEqual Variable.layer.get (named "y"))
      (.binary .equal Variable.layer.get (named "y"))
  .conditional (.binary .or (Variable.layer.compare .equal (-1)) shown) (.float 1.0)
    (named "mini_scale")

theorem derives_compare (op : BinaryOperator) (v : Variable) {ts : List Token} {e : Expression}
    (h : Derives .unary ts e) : Derives (.binary op.precedence)
      ([.identifier v.name] ++ .operator op :: ts) (.binary op v.get e) :=
  .operator (Nat.le_refl _) (.operand (.unary (.postfixed (.name _)))) (.operand h)

theorem derives_named {name : String} (hname : Parser.placeholderName name = (name, none)) :
    Derives .primary (Placeholder.yield ⟨name, none, none⟩) (named name) :=
  Placeholder.derives hname (.missing none) .missing

/-- The tokens of the template spell it. -/
theorem tokensOf_scaleTemplate : ∃ ts, tokensOf scaleTemplate = .ok ts ∧
    Derives (.expression false) ts writtenScale := by
  have hname : ∀ name ∈ ["all_below", "y", "mini_scale"],
      Parser.placeholderName name = (name, none) := by
    decide +kernel
  have hmode := derives_named (hname "all_below" (by simp))
  have hheight := derives_named (hname "y" (by simp))
  have hmini := derives_named (hname "mini_scale" (by simp))
  have hnone := derives_compare .equal .layer (.negate (.unary (.postfixed (.int 1))))
  have hall := (derives_compare .equal .layerMode (.unary (.postfixed hmode))).binary_one
  have hbelow := (derives_compare .greaterEqual .layer (.unary (.postfixed hheight))).binary_one
  have hsame := (derives_compare .equal .layer (.unary (.postfixed hheight))).binary_one
  have hshown : Derives (.expression false) _ _ :=
    .conditional hall (.condition hbelow) (.condition hsame)
  have hcondition : Derives (.binary 1) _ _ := .operator BinaryOperator.or.one_le_precedence
    (hnone.binary_mono (by decide)) (.operand (.unary (.postfixed (.group hshown))))
  refine ⟨_, ?_, .conditional hcondition (.of_primary (.float 1.0)) (.of_primary hmini)⟩
  exact toOption_eq_some_iff.mp (by decide +kernel)

/-- The template is compiled to the code of the scale. -/
theorem compileExpression_scaleTemplate (y : Nat) (miniScale : Float) :
    compileExpression scaleTemplate (scaleBindings y miniScale) =
      .ok (scale y miniScale).text := by
  obtain ⟨ts, htokens, hspelled⟩ := tokensOf_scaleTemplate
  exact compileExpression_of_tokens htokens hspelled rfl

variable {functions : Functions} {store : Store} {y : Nat} {miniScale x : Float}
  {literal : Expression} {layer mode : Int}

def fullAt (y : Nat) : Expression :=
  .binary .or (Variable.layer.compare .equal (-1))
    (.conditional (Variable.layerMode.compare .equal LayerMode.allBelow.number)
      (Variable.layer.compare .greaterEqual y) (Variable.layer.compare .equal y))

theorem text_scale (y : Nat) (miniScale : Float) : (scale y miniScale).text =
    (fullAt y).asCondition (fullAt y).text ++ "?" ++ "1.0" ++ ":" ++
      Number.literalText miniScale := by
  have hone : Number.literalText 1.0 = "1.0" := by decide +kernel
  have hbranch (x : Float) {minimum : Nat} (h : minimum ≤ Expression.atomPrecedence) :
      (Expression.float x).asBranch (Expression.float x).text minimum = Number.literalText x := by
    simp [Expression.asBranch, Expression.asOperand, Expression.precedence, Expression.text,
      Nat.not_lt.mpr h]
  rw [scale, Expression.text, hbranch _ (by decide), hbranch _ (by decide), hone]
  rfl

theorem faithful_fullAt (hy : y ≤ 2 ^ 53) : (fullAt y).Faithful := by
  have hcompare {op : BinaryOperator} (hop : op ≠ .subtract) (v : Variable) :
      (v.compare op y).Faithful := v.faithful_compare hop hy
  exact .binary (by decide) (Variable.faithful_compare (by decide) _ (by decide))
    (.conditional (Variable.faithful_compare (by decide) _ (by decide))
      (hcompare (by decide) _) (hcompare (by decide) _))

/-- Blocks are drawn in full when no layer is selected, and else by the mode. -/
theorem decides_fullAt (hy : y ≤ 2 ^ 53) (hlayer : store.HasInt Variable.layer.name layer)
    (hmode : store.HasInt Variable.layerMode.name mode) (hl : layer.natAbs ≤ 2 ^ 53)
    (hm : mode.natAbs ≤ 2 ^ 53) : (fullAt y).Decides functions store
      (decide (layer = -1 ∨ (mode = 1 ∧ y ≤ layer) ∨ (mode ≠ 1 ∧ layer = y))) := by
  have hheight : (y : Int).natAbs ≤ 2 ^ 53 := hy
  have hnone : (Variable.layer.compare .equal (-1)).Decides functions store
      (decide (layer = -1)) :=
    Expression.decides_compare rfl hlayer hl (by decide) rfl
  have hall : (Variable.layerMode.compare .equal LayerMode.allBelow.number).Decides functions store
      (decide (mode = 1)) :=
    Expression.decides_compare rfl hmode hm (by decide) rfl
  have hbelow : (Variable.layer.compare .greaterEqual y).Decides functions store
      (decide ((y : Int) ≤ layer)) :=
    Expression.decides_compare rfl hlayer hl hheight rfl
  have hsame : (Variable.layer.compare .equal y).Decides functions store
      (decide (layer = (y : Int))) :=
    Expression.decides_compare rfl hlayer hl hheight rfl
  have hselected : (decide (layer = -1) || if decide (mode = 1) then decide ((y : Int) ≤ layer)
      else decide (layer = (y : Int))) =
        decide (layer = -1 ∨ (mode = 1 ∧ y ≤ layer) ∨ (mode ≠ 1 ∧ layer = y)) := by
    by_cases hmode : mode = 1 <;> simp [hmode]
  exact hselected ▸ hnone.or (hall.choose hbelow hsame)

/-- The scale is the literal that the layer and the mode select. -/
theorem evaluateText_scale (hy : y ≤ 2 ^ 53)
    (hread : Expression.ofText (Number.literalText miniScale) = .ok literal)
    (hx : literal.literal? = some x) (hlayer : store.HasInt Variable.layer.name layer)
    (hmode : store.HasInt Variable.layerMode.name mode) (hl : layer.natAbs ≤ 2 ^ 53)
    (hm : mode.natAbs ≤ 2 ^ 53) :
    Expression.evaluateText functions store (scale y miniScale).text =
      .ok (.number
        (if layer = -1 ∨ (mode = 1 ∧ y ≤ layer) ∨ (mode ≠ 1 ∧ layer = y) then 1.0 else x)) := by
  rw [text_scale, Expression.evaluateText_conditional (faithful_fullAt hy)
    (decides_fullAt hy hlayer hmode hl hm) Expression.readsAs_one hread rfl hx]
  simp only [decide_eq_true_eq]

variable {size : Size} {palette : Palette} {layers : List Layer} {p : Placement}

/-- Every voxel with a block has its bone in the animation, whose scale is that of its height. -/
theorem bone_of_mem_rows (index : Nat) (miniScale : Float)
    (hp : p ∈ (Placement.rows size palette layers).flatten) :
    (ofRows index miniScale (Placement.rows size palette layers)).bones.get? p.boneName =
      some ⟨p.origin, (scale p.y miniScale).text⟩ := by
  rw [Placement.bones_ofRows]
  have hdistinct : Dictionary.Distinct ((Placement.rows size palette layers).flatten.map
      fun p => (p.boneName, (⟨p.origin, (scale p.y miniScale).text⟩ : BoneMotion))) := by
    have hnames := Placement.nodup_voxels.map Voxel.boneName_injective
      (l := Placement.voxels size palette layers)
    unfold Dictionary.Distinct
    rw [List.map_map]
    rwa [Placement.voxels, List.map_map] at hnames
  exact hdistinct.get?_eq_some_iff.mpr (List.mem_map.mpr ⟨p, hp, rfl⟩)

/-- The bone of a voxel has the scale that the template is compiled to for the height of the voxel.
When the text of the small scale is read as a literal, the code is worth the full scale if no layer
is selected, or if the voxel is not above the selected layer in the mode that shows all below, or in
the selected layer in any other mode, and else it is worth the literal. -/
theorem scale_of_bone (size : Size) (palette : Palette) (layers : List Layer) (index : Nat)
    {miniScale x : Float} {literal : Expression}
    (hread : Expression.ofText (Number.literalText miniScale) = .ok literal)
    (hx : literal.literal? = some x) {p : Placement}
    (hp : p ∈ (Placement.rows size palette layers).flatten) (hy : p.y ≤ 2 ^ 53) :
    ∃ motion,
      (ofRows index miniScale (Placement.rows size palette layers)).bones.get? p.boneName =
        some motion ∧
      compileExpression scaleTemplate (scaleBindings p.y miniScale) = .ok motion.scale ∧
      ∀ (functions : Functions) (store : Store) (layer mode : Int),
        store.HasInt Variable.layer.name layer → store.HasInt Variable.layerMode.name mode →
        layer.natAbs ≤ 2 ^ 53 → mode.natAbs ≤ 2 ^ 53 →
        Expression.evaluateText functions store motion.scale =
          .ok (.number (if layer = -1 ∨ (mode = 1 ∧ p.y ≤ layer) ∨ (mode ≠ 1 ∧ layer = p.y)
            then 1.0 else x)) :=
  ⟨_, bone_of_mem_rows index miniScale hp, compileExpression_scaleTemplate p.y miniScale,
    fun _ _ _ _ hlayer hmode hl hm => evaluateText_scale hy hread hx hlayer hmode hl hm⟩

/-- The upper one of two blocks while the lower layer is selected. -/
theorem scale_of_bone_upper :
    let palette : Palette := .ofBlocks [⟨"stone", [], none⟩]
    let p : Placement := ⟨0, 1, 0, 0, 0, ⟨"stone", [], none⟩⟩
    let store : Store := [("v.hologram.layer", .number 0.0), ("v.hologram.layer_mode", .number 1.0)]
    Expression.ofText (Number.literalText 0.125) = .ok (.float 0.125) ∧
      p ∈ (Placement.rows ⟨1, 2, 1⟩ palette [#[0, 0]]).flatten ∧
      store.HasInt Variable.layer.name 0 ∧ store.HasInt Variable.layerMode.name 1 ∧
      ∃ motion, (ofRows 0 0.125 (Placement.rows ⟨1, 2, 1⟩ palette [#[0, 0]])).bones.get?
          p.boneName = some motion ∧
        Expression.evaluateText [] store motion.scale = .ok (.number 0.125) := by
  intro palette p store
  have hread : Expression.ofText (Number.literalText 0.125) = .ok (.float 0.125) := by
    have htokens : tokensOf (Number.literalText 0.125) = .ok [.float 0.125] :=
      toOption_eq_some_iff.mp (by decide +kernel)
    exact Expression.ofText_of_tokens htokens (.float 0.125)
  have hp : p ∈ (Placement.rows ⟨1, 2, 1⟩ palette [#[0, 0]]).flatten :=
    List.mem_of_getElem? (i := 1) rfl
  have hlayer : store.HasInt Variable.layer.name 0 := ⟨0.0, rfl, by decide +kernel⟩
  have hmode : store.HasInt Variable.layerMode.name 1 := ⟨1.0, rfl, by decide +kernel⟩
  obtain ⟨motion, hmotion, -, hvalue⟩ :=
    scale_of_bone ⟨1, 2, 1⟩ palette [#[0, 0]] 0 hread rfl hp (by decide)
  exact ⟨hread, hp, hlayer, hmode, motion, hmotion,
    hvalue [] store 0 1 hlayer hmode (by decide) (by decide)⟩

end Hologram.Animation
