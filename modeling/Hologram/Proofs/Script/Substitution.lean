import Hologram.Proofs.Number.ReadingBack
import Hologram.Proofs.Script.Assignments
import Hologram.Proofs.Script.Gluing

/-! Numbers in the place of placeholders. Their texts are read as single literals with their values,
as long as their integer parts without the sign have 63 bits. The sign of a literal is read apart
from its digits, so that the least integer of 64 bits does not come back, and the digits of a double
from `2 ^ 63` on are too large for an integer and have no point. -/
namespace Hologram.Script
open Lexer

namespace Constant

def wholePart? : Constant → Option Int
  | int value => some value
  | float value => Number.truncate? value
  | _ => none

end Constant

namespace Expression

/-- A literal with the value of a number. An integer that is the literal of a double counts as the
double that is nearest to it. -/
def IsLiteralOf : Expression → Constant → Prop
  | int n, .int value => n = value
  | int n, .float value => Float.ofInt n = value
  | float x, .float value => x = value
  | _, _ => False

section

variable {text : String} {negative : Bool} {cs ds fs : List Char} {o : Option (List Token)}

theorem yields_signed (h : text.toList = (if negative then ['-'] else []) ++ cs)
    (hopens : Opens cs) (hhead : cs.head? ≠ some '-') (hcs : Yields cs o) :
    Yields text.toList (both (some (minuses negative.toNat)) o) := by
  refine Signed.yields ⟨cs, ?_, hopens, hhead, hcs⟩
  rw [h]
  cases negative <;> rfl

/-- A literal with a sign before it is read as the literal with the sign. -/
theorem ofText_signed {t : Token} {e : Expression}
    (h : Yields text.toList (both (some (minuses negative.toNat)) (some [t])))
    (he : Derives .primary [t] e) : ofText text = .ok (if negative then e.negate else e) := by
  refine ofText_eq_ok_iff.mpr ⟨false, _, h.reads_iff.mpr rfl, .condition (.operand ?_)⟩
  have hunary : Derives .unary [t] e := .unary (.postfixed he)
  cases negative with
  | false => exact hunary
  | true => exact .negate hunary

theorem opens_digits (hds : Number.IsDigits ds) : Opens ds ∧ ds.head? ≠ some '-' := by
  refine ⟨?_, (Number.Numeral.whole hds).head?_ne rfl⟩
  obtain ⟨c, cs, rfl⟩ := List.exists_cons_of_ne_nil hds.1
  exact opens_of_isDigit (hds.2 c (.head _)) cs

theorem ofText_point (h : text.toList = (if negative then ['-'] else []) ++ (ds ++ '.' :: fs))
    (hds : Number.IsDigits ds) (hfs : Number.IsDigits fs) : ofText text =
      .ok (.float (if negative then -Number.ofParts ds fs else Number.ofParts ds fs)) := by
  have hyields := yields_signed h ((opens_digits hds).1.append _)
    ((Number.Numeral.point hds hfs).head?_ne rfl) (.of_spells (spells_point hds hfs))
  rw [ofText_signed hyields (.float _)]
  cases negative <;> rfl

/-- Digits alone with a sign before them are an integer, if the digits fit without the sign. -/
theorem ofText_digits (h : text.toList = (if negative then ['-'] else []) ++ ds)
    (hds : Number.IsDigits ds) (hfits : Number.ofDigits ds < Number.Width.bits64.half) :
    ofText text =
      .ok (.int (if negative then -(Number.ofDigits ds : Int) else Number.ofDigits ds)) := by
  have hgreatest : (Number.ofDigits ds : Int) ≤ Number.Width.bits64.greatest := by
    unfold Number.Width.greatest
    omega
  obtain ⟨hopens, hhead⟩ := opens_digits hds
  have hyields := yields_signed h hopens hhead (.of_spells (spells_digits hds.1 hds.2 hgreatest))
  rw [ofText_signed hyields (.int _)]
  cases negative <;> rfl

theorem ofText_digits_ne_ok (h : text.toList = (if negative then ['-'] else []) ++ ds)
    (hds : Number.IsDigits ds) (hlarge : Number.Width.bits64.half ≤ Number.ofDigits ds)
    (e : Expression) : ofText text ≠ .ok e := by
  intro he
  have hgreatest : Number.Width.bits64.greatest < Number.ofDigits ds := by
    unfold Number.Width.greatest
    omega
  obtain ⟨hopens, hhead⟩ := opens_digits hds
  have hyields := yields_signed h hopens hhead (yields_none_of_digits hds hgreatest)
  obtain ⟨opens, ts, hts, -⟩ := ofText_eq_ok_iff.mp he
  cases hyields.reads_iff.mp hts

end

/-- A text that is read as a literal with the value of `c` when `fits` holds, and otherwise as
nothing. -/
def ReadsBackIf (fits : Prop) (text : String) (c : Constant) : Prop :=
  ((∃ e, ofText text = .ok e) ↔ fits) ∧ ∀ e, ofText text = .ok e → e.IsLiteralOf c

theorem readsBackIf_of_ok {fits : Prop} {text : String} {c : Constant} {e : Expression}
    (hfits : fits) (h : ofText text = .ok e) (he : e.IsLiteralOf c) : ReadsBackIf fits text c := by
  refine ⟨⟨fun _ => hfits, fun _ => ⟨e, h⟩⟩, fun e' h' => ?_⟩
  cases h.symm.trans h'
  exact he

theorem readsBackIf_of_digits {text : String} {c : Constant} {negative : Bool} {ds : List Char}
    {whole : Nat} (h : text.toList = (if negative then ['-'] else []) ++ ds)
    (hds : Number.IsDigits ds)
    (hwhole : Number.ofDigits ds < Number.Width.bits64.half ↔ whole < Number.Width.bits64.half)
    (hvalue : IsLiteralOf
      (.int (if negative then -(Number.ofDigits ds : Int) else Number.ofDigits ds)) c) :
    ReadsBackIf (whole < Number.Width.bits64.half) text c := by
  by_cases hfits : Number.ofDigits ds < Number.Width.bits64.half
  · exact readsBackIf_of_ok (hwhole.mp hfits) (ofText_digits h hds hfits) hvalue
  · have hnone := ofText_digits_ne_ok h hds (Nat.not_lt.mp hfits)
    refine ⟨⟨fun ⟨e, he⟩ => absurd he (hnone e), fun hlt => absurd (hwhole.mpr hlt) hfits⟩, ?_⟩
    exact fun e he => absurd he (hnone e)

theorem readsBackIf_int (n : Int) :
    ReadsBackIf (n.natAbs < Number.Width.bits64.half) (toString n) (.int n) := by
  have hvalue : Number.ofDigits (Nat.toDigits 10 n.natAbs) = n.natAbs :=
    Nat.ofDigitChars_ten_toDigits
  have htext : (toString n).toList =
      (if decide (n < 0) then ['-'] else []) ++ Nat.toDigits 10 n.natAbs := by
    simpa using Number.toList_toString_int n
  refine readsBackIf_of_digits htext (.digits _) (by rw [hvalue]) ?_
  rw [hvalue]
  change (if decide (n < 0) then -(n.natAbs : Int) else n.natAbs) = n
  split_ifs with hn <;> rw [decide_eq_true_eq] at hn <;> omega

theorem readsBackIf_float {x : Float} {b : Number.Binary} (hx : Number.Binary.ofFloat? x = some b)
    (hinverse : Number.ofText? (Number.plainText x) = some x) :
    ReadsBackIf (b.whole < Number.Width.bits64.half) (Number.literalText x) (.float x) := by
  have hhalf : Number.Width.bits64.half = 2 ^ 63 := rfl
  obtain ⟨cs, y, htext, hsign, hmagnitude⟩ := Number.exists_magnitude hx hinverse
  cases hmagnitude with
  | point hds hfs hvalue hwhole =>
    refine readsBackIf_of_ok (by omega) (ofText_point htext hds hfs) ?_
    rw [hvalue]
    exact hsign
  | digits hds hpositive hvalue hwhole =>
    refine readsBackIf_of_digits htext hds (by rw [hhalf]; exact hwhole) ?_
    change Float.ofInt _ = x
    rw [← hsign, ← hvalue]
    split_ifs
    · exact Number.ofInt_neg (n := Number.ofDigits cs) (by omega)
    · rfl

end Expression

theorem compile_assignment {bindings : Bindings} {c : Constant}
    (hc : bindings.get? "n" = some c) (hscalar : c.isScalar = true) :
    compile "v.x = $[n];" bindings = .ok ("v.x=" ++ c.toExpression.text ++ ";") := by
  let written : Assignments := [("v.x", .placeholder ⟨"n", none, none⟩)]
  let resolved : Assignments := [("v.x", c.toExpression)]
  have htokens : tokensOf "v.x = $[n];" = .ok written.tokens :=
    toOption_eq_some_iff.mp (by decide +kernel)
  have hname : Parser.placeholderName "n" = ("n", none) := by decide +kernel
  have hungrouped : ∀ entry ∈ written, entry.2.Ungrouped :=
    List.forall_mem_singleton.mpr (Expression.ungrouped_placeholder hname (.missing _) .missing)
  have hvalue : Expression.resolve bindings [] (.placeholder ⟨"n", none, none⟩) =
      .ok c.toExpression := by
    unfold Expression.resolve Placeholder.resolve Placeholder.base?
    simp only [Scope.get?, List.lookup_nil, hc, ok_bind, hscalar, if_true]
    rfl
  have htext : resolved.code.text = "v.x=" ++ c.toExpression.text ++ ";" := by
    simp [resolved, Assignments.code, Code.text, Code.texts, Code.instructionText,
      Expression.text]
  rw [← htext]
  exact Assignments.compile_of_tokens htokens hungrouped (.cons ⟨rfl, hvalue⟩ .nil)

/-- The text of a number in the place of a placeholder is a literal with its value, unless its
integer part takes 64 bits without the sign. -/
theorem compile_number {bindings : Bindings} {c : Constant} {z : Int}
    (hc : bindings.get? "n" = some c) (hz : c.wholePart? = some z)
    (hinverse : ∀ x, c = .float x → Number.ofText? (Number.plainText x) = some x) :
    ∃ text, compile "v.x = $[n];" bindings = .ok ("v.x=" ++ text ++ ";") ∧
      ((∃ e, Expression.ofText text = .ok e) ↔ z.natAbs < Number.Width.bits64.half) ∧
      ∀ e, Expression.ofText text = .ok e → e.IsLiteralOf c := by
  cases c with
  | int n =>
    cases hz
    refine ⟨_, compile_assignment hc rfl, ?_⟩
    rw [Constant.toExpression, Expression.text]
    exact Expression.readsBackIf_int z
  | float x =>
    obtain ⟨b, hx, rfl⟩ := Option.map_eq_some_iff.mp hz
    refine ⟨_, compile_assignment hc rfl, ?_⟩
    rw [Constant.toExpression, Expression.text, Number.Binary.natAbs_truncated]
    exact Expression.readsBackIf_float hx (hinverse x rfl)
  | indefinite | bool | code | sequence | mapping => contradiction

/-- A double that is written without a point comes back as an integer. -/
theorem compile_number_large :
    let bindings : Bindings := [("n", .float (-1e18))]
    bindings.get? "n" = some (.float (-1e18)) ∧
      (Constant.float (-1e18)).wholePart? = some (-1000000000000000000) ∧
      (∀ x, Constant.float (-1e18) = .float x → Number.ofText? (Number.plainText x) = some x) ∧
      ∃ text, compile "v.x = $[n];" bindings = .ok ("v.x=" ++ text ++ ";") ∧
        ((∃ e, Expression.ofText text = .ok e) ↔
          (-1000000000000000000 : Int).natAbs < Number.Width.bits64.half) ∧
        ∀ e, Expression.ofText text = .ok e → e.IsLiteralOf (.float (-1e18)) := by
  intro bindings
  have hbound : bindings.get? "n" = some (.float (-1e18)) := rfl
  have hwhole : (Constant.float (-1e18)).wholePart? = some (-1000000000000000000) := by
    decide +kernel
  have hinverse : ∀ x, Constant.float (-1e18) = .float x →
      Number.ofText? (Number.plainText x) = some x := by
    rintro _ ⟨⟩
    decide +kernel
  exact ⟨hbound, hwhole, hinverse, compile_number hbound hwhole hinverse⟩

/-- The least integer of 64 bits is no literal. -/
theorem number_not_always_literal :
    ¬ ∀ (bindings : Bindings) (c : Constant) (z : Int), bindings.get? "n" = some c →
      c.wholePart? = some z → (∀ n, c = .int n → Number.Width.bits64.holds n = true) →
      (∀ x, c = .float x → Number.ofText? (Number.plainText x) = some x) →
      ∃ text e, compile "v.x = $[n];" bindings = .ok ("v.x=" ++ text ++ ";") ∧
        Expression.ofText text = .ok e ∧ e.IsLiteralOf c := by
  intro h
  have hholds : ∀ n, Constant.int (-0x8000000000000000) = .int n →
      Number.Width.bits64.holds n = true := by
    rintro _ ⟨⟩
    decide
  obtain ⟨text, e, hcompile, he, -⟩ :=
    h [("n", .int (-0x8000000000000000))] _ _ rfl rfl hholds nofun
  have hcode : compile "v.x = $[n];" [("n", .int (-0x8000000000000000))] =
      .ok ("v.x=" ++ (Constant.int (-0x8000000000000000)).toExpression.text ++ ";") :=
    compile_assignment rfl rfl
  rw [hcode, Constant.toExpression, Expression.text] at hcompile
  obtain rfl : toString (-0x8000000000000000 : Int) = text := by
    have hchars := congrArg String.toList (Except.ok.inj hcompile)
    simpa only [String.toList_append, List.append_cancel_right_eq, List.append_cancel_left_eq,
      String.toList_inj] using hchars
  exact absurd ((Expression.readsBackIf_int _).1.mp ⟨e, he⟩) (by decide)

end Hologram.Script
