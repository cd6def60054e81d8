import Hologram.Proofs.Script.Derivation
import Hologram.Proofs.Script.Naming

/-! Integers of 64 bits while a text is compiled. Signs are folded and placeholders are adjusted
without asking whether the result has 64 bits, and what the parser lets through is such that it
always has. -/
namespace Hologram.Number.Width

variable {w : Width} {first second : Int}

/-- The quotient of two numbers with a sign, which there is none of by zero or beyond the width. -/
def quotient? (w : Width) (first second : Int) : Option Int :=
  if second ≠ 0 ∧ w.holds (first.tdiv second) = true then some (first.tdiv second) else none

/-- The remainder that belongs to a quotient. There is none where there is no quotient. -/
def remainder? (w : Width) (first second : Int) : Option Int :=
  if second ≠ 0 ∧ w.holds (first.tdiv second) = true then some (first.tmod second) else none

/-- By a number that is not negative nothing leaves the width. -/
theorem holds_tdiv (h : w.holds first = true) (hsecond : 0 ≤ second) :
    w.holds (first.tdiv second) = true := by
  obtain ⟨hleast, hgreatest⟩ := holds_iff.mp h
  have hle : (first.tdiv second).natAbs ≤ first.natAbs := Int.natAbs_tdiv_le_natAbs first second
  refine holds_iff.mpr ?_
  rcases Int.le_total 0 first with hsign | hsign
  · have hnonneg : 0 ≤ first.tdiv second := Int.tdiv_nonneg hsign hsecond
    have hzero : w.least ≤ 0 := by cases w <;> decide
    omega
  · have hnonpos : 0 ≤ (-first).tdiv second := Int.tdiv_nonneg (Int.neg_nonneg.mpr hsign) hsecond
    rw [Int.neg_tdiv] at hnonpos
    have hzero : 0 ≤ w.greatest := by cases w <;> decide
    omega

end Hologram.Number.Width

namespace Hologram.Script
open Number (Width)

namespace Constant

/-- The integer result of an adjustment, worked out on numbers of 64 bits. There is nothing when an
operation on them fails; sums, differences and products are asked for with a check. -/
def adjustedOnWords? (operator : BinaryOperator) (first second : Int) : Option (Option Int) :=
  match operator with
  | .divide =>
    if second = 0 then some none
    else do
      let remainder ← Width.bits64.remainder? first second
      if remainder = 0 then return some (← Width.bits64.quotient? first second)
      else return none
  | operator => some (adjustedInt? operator first second)

/-- By a number that is not negative no operation fails. -/
theorem adjustedOnWords?_eq (operator : BinaryOperator) {first second : Int}
    (h : Width.bits64.holds first = true) (hsecond : 0 ≤ second) :
    adjustedOnWords? operator first second = some (adjustedInt? operator first second) := by
  cases operator with
  | divide =>
    by_cases hzero : second = 0
    · simp [adjustedOnWords?, adjustedInt?, hzero]
    · have hquotient := Width.holds_tdiv h hsecond
      by_cases hexact : first.tmod second = 0 <;>
        simp [adjustedOnWords?, adjustedInt?, Width.quotient?, Width.remainder?, hzero, hquotient,
          hexact]
  | _ => rfl

/-- A number without a sign before it. -/
def Unsigned : Constant → Prop
  | int n => 0 ≤ n ∧ n ≤ Width.bits64.greatest
  | float _ => True
  | _ => False

end Constant

/-- The numbers in a placeholder have no sign before them. -/
structure Placeholder.Unsigned (q : Placeholder) : Prop where
  index : ∀ n, q.accessor = some (.index n) → (Constant.int n).Unsigned
  operand : ∀ op operand, q.adjustment = some (op, operand) → operand.Unsigned

/-- The numbers in the placeholders that an expression adds to its parts have no sign. -/
def Expression.Unsigned : Expression → Prop
  | placeholder q => q.Unsigned
  | _ => True

theorem Position.unsigned {before after : Option Accessor} {ts : List Token}
    (h : Position before ts after) (hbefore : ∀ n, before ≠ some (.index n))
    (hts : ∀ t ∈ ts, t.Native) (n : Int) (hn : after = some (.index n)) :
    (Constant.int n).Unsigned := by
  cases h with
  | missing => exact absurd hn (hbefore n)
  | index =>
    cases hn
    exact hts (.int n) (.tail _ (.head _))
  | named => cases hn

theorem Adjustment.unsigned {adjustment : Option (BinaryOperator × Constant)} {ts : List Token}
    (h : Adjustment ts adjustment) (hts : ∀ t ∈ ts, t.Native) (op : BinaryOperator)
    (operand : Constant) (hop : adjustment = some (op, operand)) : operand.Unsigned := by
  cases h with
  | missing => cases hop
  | int _ n =>
    cases hop
    exact hts (.int n) (.tail _ (.head _))
  | float =>
    cases hop
    trivial

theorem placeholderName_ne_index (text : String) (n : Int) :
    (Parser.placeholderName text).2 ≠ some (.index n) := by
  unfold Parser.placeholderName
  dsimp only
  split <;> nofun

/-- A sign is never read into a placeholder. -/
theorem Derives.unsigned {level : Level} {ts : List Token} {e : Expression}
    (h : Derives level ts e) (hts : ∀ t ∈ ts, t.Native) : e.Unsigned := by
  induction h with
  | placeholder hp ha =>
    simp only [List.forall_mem_cons, List.forall_mem_append] at hts
    obtain ⟨-, -, -, ⟨hposition, hadjustment⟩, -⟩ := hts
    exact ⟨hp.unsigned (placeholderName_ne_index _) hposition, ha.unsigned hadjustment⟩
  | group _ ih | comma _ ih | closeOpened _ ih | closeFilled _ ih =>
    exact ih fun t ht => hts t (by simp [ht])
  | postfixed _ ih | unary _ ih | operand _ ih | condition _ ih => exact ih hts
  | @negate ts e =>
    -- a placeholder keeps the sign outside, and a literal takes it in
    cases e <;> trivial
  | _ => trivial

/-- The integers of an expression stay in 64 bits. Its literals can be negated, and its placeholders
can be adjusted whatever number they stand for. -/
structure Expression.FitsWords (e : Expression) : Prop where
  literal : ∀ n, .int n ∈ e.parts → -(2 ^ 63 - 1) ≤ n ∧ n ≤ 2 ^ 63 - 1
  operand : ∀ q op operand, .placeholder q ∈ e.parts → q.adjustment = some (op, operand) →
    (∃ x, operand = .float x) ∨ ∃ n, operand = .int n ∧ 0 ≤ n ∧ n ≤ 2 ^ 63 - 1
  adjusted : ∀ q op n, .placeholder q ∈ e.parts → q.adjustment = some (op, .int n) →
    ∀ first, Width.bits64.holds first = true →
      Constant.adjustedOnWords? op first n = some (Constant.adjustedInt? op first n)

theorem SpelledIn.fitsWords {ts : List Token} {e : Expression} (h : SpelledIn ts e)
    (hts : ∀ t ∈ ts, t.Native) : e.FitsWords := by
  have hunsigned : ∀ d ∈ e.parts, d.Unsigned := by
    rcases h with rfl | ⟨level, us, hus, he⟩
    · exact List.forall_mem_singleton.mpr trivial
    · intro d hd
      obtain ⟨level', vs, hvs, hspelled⟩ := he.partOf_of_mem d hd
      exact hspelled.unsigned fun t ht => hts t (hus.subset (hvs ht))
  refine ⟨fun n hn => h.native hts _ hn, fun q op operand hq hop => ?_,
    fun q op n hq hop first hfirst => ?_⟩
  · have hoperand := (hunsigned _ hq).operand op operand hop
    cases operand with
    | int n => exact .inr ⟨n, rfl, hoperand⟩
    | float x => exact .inl ⟨x, rfl⟩
    | _ => exact hoperand.elim
  · exact Constant.adjustedOnWords?_eq op hfirst ((hunsigned _ hq).operand op _ hop).1

/-- Whatever tokens the parser stands at, the operand behind a sign is not the least integer. -/
theorem Parser.unary_ne_least {text : String} {tokens : TokenList}
    (h : TokenList.ofText text = .ok tokens) {s : List Lexeme} (hs : s <:+ tokens.lexemes)
    {operand : Parsed Expression s.length} (hoperand : unary tokens.stop s = .ok operand) {n : Int}
    (hn : operand.value = .int n) : n ≠ Width.bits64.least ∧ Width.bits64.holds (-n) = true := by
  obtain ⟨ts, hts, hvalue⟩ := unary_of_ok hoperand
  have hall : s.map (·.token) = ts ++ operand.rest.map (·.token) :=
    Leads.nil_iff.mp (hts.append (Leads.nil_iff.mpr rfl))
  have hnative : ∀ t ∈ ts, t.Native := by
    intro t ht
    have hmem : t ∈ s.map (·.token) := hall ▸ List.mem_append_left _ ht
    exact (Lexer.tokens_ofText_iff.mp ⟨tokens, h, rfl⟩).native t ((hs.map _).subset hmem)
  have hliteral : (Expression.int n).Native := by
    refine hvalue.native hnative _ ?_
    rw [hn]
    exact .head _
  obtain ⟨hleast, hgreatest⟩ := hliteral
  refine ⟨fun hn => ?_, Width.holds_iff.mpr ⟨?_, ?_⟩⟩
  all_goals
    simp only [Width.least, Width.greatest, Width.half, Width.count] at *
    omega

/-- Compiling a text never leaves the integers of 64 bits. Wherever a sign is folded into what comes
after it, in a text that is accepted or not, that is not the least integer. In a text that is
accepted the literals of all expressions can be negated, and a placeholder is adjusted by a double
or by an integer that is not negative, so that neither its remainder nor its quotient fails,
whatever integer the bindings or the loops put before the operator. -/
theorem fitsWords_of_ofText (text : String) :
    (∀ tokens, TokenList.ofText text = .ok tokens → ∀ s, s <:+ tokens.lexemes →
      ∀ operand, Parser.unary tokens.stop s = .ok operand → ∀ n, operand.value = .int n →
        n ≠ Width.bits64.least ∧ Width.bits64.holds (-n) = true) ∧
      (∀ p, Procedure.ofText text = .ok p → ∀ e ∈ p.expressions, e.FitsWords) ∧
      ∀ e, Expression.ofText text = .ok e → e.FitsWords := by
  refine ⟨fun tokens h s hs operand hoperand n hn => Parser.unary_ne_least h hs hoperand hn,
    fun p hp e he => ?_, fun e he => ?_⟩
  · obtain ⟨ts, hts, hspelled⟩ := Procedure.spelledIn_of_ofText hp
    exact (hspelled e he).fitsWords hts.native
  · obtain ⟨opens, ts, hts, hderives⟩ := Expression.ofText_eq_ok_iff.mp he
    exact SpelledIn.fitsWords (.inr ⟨_, ts, List.infix_refl ts, hderives⟩) hts.native

set_option maxRecDepth 20000 in
/-- The greatest integer behind two signs, and the least one before an operator. -/
theorem fitsWords_of_ofText_signs :
    let q : Placeholder := ⟨"a", none, some (.divide, .int 1)⟩
    let e : Expression := .binary .add (.int (2 ^ 63 - 1)) (.placeholder q)
    Expression.ofText "-(-9223372036854775807)+$[a/1]" = .ok e ∧
      (-(2 ^ 63 - 1) ≤ (2 ^ 63 - 1 : Int) ∧ (2 ^ 63 - 1 : Int) ≤ 2 ^ 63 - 1) ∧
      Constant.adjustedOnWords? .divide Width.bits64.least 1 =
        some (Constant.adjustedInt? .divide Width.bits64.least 1) := by
  intro q e
  have he : Expression.ofText "-(-9223372036854775807)+$[a/1]" = .ok e := by cbv
  obtain ⟨-, -, hexpression⟩ := fitsWords_of_ofText "-(-9223372036854775807)+$[a/1]"
  refine ⟨he, (hexpression e he).literal _ ?_, (hexpression e he).adjusted q .divide 1 ?_ rfl _ ?_⟩
  · simp [e, Expression.parts]
  · simp [e, Expression.parts]
  · decide

end Hologram.Script
