import Hologram.Proofs.Script.Settling

/-! The text of an expression is read as the expression. -/
namespace Hologram.Script
open Lexer

/-- A text spells an expression of a level, whatever comes after it. -/
def ReadsAs (text : String) (level : Level) (e : Expression) : Prop :=
  ∃ ts, Spells text.toList ts ∧ Derives level ts e

namespace Derives

variable {level : Level} {cs rest : List Char} {ts : List Token} {e : Expression}

theorem endsSigns (h : Derives level ts e) (hts : Reads false cs ts rest) : EndsSigns cs := by
  obtain ⟨t, us, rfl, ht⟩ := h.exists_cons
  exact endsSigns_of_reads hts ht

theorem head?_append (h : Derives level ts e) (hts : Spells cs ts) :
    (cs ++ rest).head? = cs.head? := by
  cases cs with
  | nil =>
    obtain ⟨t, us, rfl, -⟩ := h.exists_cons
    cases hts [] separate_nil
  | cons c cs => rfl

end Derives

theorem separate_symbol (op : BinaryOperator) (rest : List Char) :
    Separate (op.symbol.toList ++ rest) := by
  cases op <;> exact .cons (by decide) _

namespace ReadsAs

variable {level : Level} {text : String} {e : Expression}

/-- A group in parentheses is an operand everywhere. -/
theorem parenthesized {opens : Bool} (h : ReadsAs text (.expression opens) e) :
    ReadsAs (parenthesized text) .primary e := by
  obtain ⟨ts, hts, he⟩ := h
  refine ⟨_, fun rest hrest => ?_, .group he⟩
  simp only [Script.parenthesized, String.toList_append, List.append_assoc]
  have hclose : Separate (')' :: rest) := .cons (by decide) rest
  exact reads_punctuation rfl ((hts _ hclose).append (reads_punctuation rfl .done))

theorem binary {op : BinaryOperator} {text' : String} {a b : Expression}
    (ha : ReadsAs text (.binary op.precedence) a)
    (hb : ReadsAs text' (.binary (op.precedence + 1)) b)
    (hminus : op = .subtract → text'.toList.head? ≠ some '-') :
    ReadsAs (text ++ op.symbol ++ text') (.binary op.precedence) (.binary op a b) := by
  obtain ⟨ts, hts, ha⟩ := ha
  obtain ⟨us, hus, hb⟩ := hb
  refine ⟨_, fun rest hrest => ?_, .operator (Nat.le_refl _) ha hb⟩
  simp only [String.toList_append, List.append_assoc]
  have hsecond := hus rest hrest
  refine (hts _ (separate_symbol op _)).append (reads_operator op (hb.endsSigns hsecond) ?_ hsecond)
  rw [hb.head?_append hus]
  exact hminus

theorem not {a : Expression} (h : ReadsAs text .unary a) :
    ReadsAs (UnaryOperator.not.symbol ++ text) .unary (.unary .not a) := by
  obtain ⟨ts, hts, ha⟩ := h
  refine ⟨_, fun rest hrest => ?_, .not ha⟩
  have hoperand := hts rest hrest
  rw [String.toList_append, List.append_assoc]
  have hends := ha.endsSigns hoperand
  exact reads_sign (c := '!') rfl (fun _ => hends.joins_eq_false (by decide)) hoperand

theorem negate {a : Expression} (h : ReadsAs text .unary a)
    (hminus : text.toList.head? ≠ some '-') :
    ReadsAs (UnaryOperator.negate.symbol ++ text) .unary a.negate := by
  obtain ⟨ts, hts, ha⟩ := h
  refine ⟨_, fun rest hrest => ?_, .negate ha⟩
  have hoperand := hts rest hrest
  rw [String.toList_append, List.append_assoc]
  refine reads_operator .subtract (ha.endsSigns hoperand) (fun _ => ?_) hoperand
  rwa [ha.head?_append hts]

theorem index {opens : Bool} {text' : String} {a b : Expression} (ha : ReadsAs text .postfixed a)
    (hb : ReadsAs text' (.expression opens) b) :
    ReadsAs (text ++ "[" ++ text' ++ "]") .postfixed (.index a b) := by
  obtain ⟨ts, hts, ha⟩ := ha
  obtain ⟨us, hus, hb⟩ := hb
  refine ⟨_, fun rest hrest => ?_, .index ha hb⟩
  simp only [String.toList_append, List.append_assoc]
  have hopen : Separate ('[' :: (text'.toList ++ ']' :: rest)) := .cons (by decide) _
  have hclose : Separate (']' :: rest) := .cons (by decide) _
  exact (hts _ hopen).append
    (reads_punctuation rfl ((hus _ hclose).append (reads_punctuation rfl .done)))

theorem conditional {opens : Bool} {text' text'' : String} {c s u : Expression}
    (hc : ReadsAs text (.binary 1) c) (hs : ReadsAs text' (.expression false) s)
    (hu : ReadsAs text'' (.expression opens) u) :
    ReadsAs (text ++ "?" ++ text' ++ ":" ++ text'') (.expression opens) (.conditional c s u) := by
  obtain ⟨ts, hts, hc⟩ := hc
  obtain ⟨us, hus, hs⟩ := hs
  obtain ⟨vs, hvs, hu⟩ := hu
  refine ⟨_, fun rest hrest => ?_, .conditional hc hs hu⟩
  simp only [String.toList_append, List.append_assoc]
  have hsatisfied := hus (':' :: (text''.toList ++ rest)) (.cons (by decide) _)
  refine (hts _ (.cons (by decide) _)).append (reads_sign (c := '?') rfl (fun _ => ?_)
    (hsatisfied.append (reads_punctuation rfl (hvs rest hrest))))
  exact (hs.endsSigns hsatisfied).joins_eq_false (by decide)

theorem guarded {opens : Bool} {text' : String} {c s : Expression}
    (hc : ReadsAs text (.binary 1) c) (hs : ReadsAs text' (.expression opens) s) :
    ReadsAs (text ++ "?" ++ text') (.expression true) (.guarded c s) := by
  obtain ⟨ts, hts, hc⟩ := hc
  obtain ⟨us, hus, hs⟩ := hs
  refine ⟨_, fun rest hrest => ?_, .guarded hc hs⟩
  simp only [String.toList_append, List.append_assoc]
  have hbranch := hus rest hrest
  refine (hts _ (.cons (by decide) _)).append
    (reads_sign (c := '?') rfl (fun _ => ?_) hbranch)
  exact (hs.endsSigns hbranch).joins_eq_false (by decide)

theorem int_of_nonneg {n : Int} (hn : 0 ≤ n) (h : n ≤ Number.Width.bits64.greatest) :
    ReadsAs (toString n) .primary (.int n) := by
  obtain ⟨m, rfl⟩ := Int.eq_ofNat_of_zero_le hn
  refine ⟨_, ?_, .int m⟩
  change Spells (toString m).toList _
  rw [Nat.toString_eq_ofList_toDigits, String.toList_ofList]
  exact spells_natural h

theorem int_of_neg {n : Int} (hn : n < 0) (h : Number.Width.bits64.least < n) :
    ReadsAs (toString n) .unary (.int n) := by
  cases n with
  | ofNat m => exact absurd hn (Int.not_lt.mpr (Int.natCast_nonneg m))
  | negSucc m =>
    have hbound : ((m + 1 : Nat) : Int) ≤ Number.Width.bits64.greatest := by
      rw [Number.Width.least_eq, Int.negSucc_eq] at h
      omega
    obtain ⟨ts, hts, he⟩ := int_of_nonneg (Int.natCast_nonneg (m + 1)) hbound
    have hoperand : ReadsAs _ .unary (.int ((m + 1 : Nat) : Int)) :=
      ⟨ts, hts, .unary (.postfixed he)⟩
    refine hoperand.negate fun hhead => ?_
    replace hhead : (toString (m + 1)).toList.head? = some '-' := hhead
    rw [Nat.toString_eq_ofList_toDigits, String.toList_ofList] at hhead
    have hdigit : '-'.isDigit = true :=
      Nat.isDigit_of_mem_toDigits (by decide) (by decide) (List.mem_of_mem_head? hhead)
    exact absurd hdigit (by decide)

end ReadsAs

namespace Level

/-- The level of what holds together as tightly as a precedence says. -/
def ofPrecedence (k : Nat) : Level :=
  if k = 0 then .expression true
  else if k < unaryPrecedence then .binary k
  else if k = unaryPrecedence then .unary
  else .postfixed

theorem ofPrecedence_operator (op : BinaryOperator) :
    ofPrecedence op.precedence = .binary op.precedence := by
  cases op <;> rfl

end Level

namespace ReadsAs

variable {text : String} {e : Expression} {j k : Nat}

theorem of_binary (h : ReadsAs text (.binary k) e) (hjk : j ≤ k) (hj : j < unaryPrecedence) :
    ReadsAs text (.ofPrecedence j) e := by
  obtain ⟨ts, hts, he⟩ := h
  refine ⟨ts, hts, ?_⟩
  unfold Level.ofPrecedence
  split_ifs
  · exact .condition he.binary_one
  · exact he.binary_mono hjk

theorem of_unary (h : ReadsAs text .unary e) (hj : j ≤ unaryPrecedence) :
    ReadsAs text (.ofPrecedence j) e := by
  obtain ⟨ts, hts, he⟩ := h
  refine ⟨ts, hts, ?_⟩
  unfold Level.ofPrecedence
  split_ifs with hzero hbinary hunary
  · exact .condition (.operand he)
  · exact .operand he
  · exact he
  · omega

theorem of_postfixed (h : ReadsAs text .postfixed e) (j : Nat) :
    ReadsAs text (.ofPrecedence j) e := by
  obtain ⟨ts, hts, he⟩ := h
  by_cases hj : j ≤ unaryPrecedence
  · exact of_unary ⟨ts, hts, .unary he⟩ hj
  · refine ⟨ts, hts, ?_⟩
    have hzero : j ≠ 0 := by
      rintro rfl
      exact hj (Nat.zero_le _)
    rw [Level.ofPrecedence, if_neg hzero, if_neg (by omega), if_neg (by omega)]
    exact he

theorem expression (h : ReadsAs text (.ofPrecedence k) e) : ReadsAs text (.expression true) e := by
  obtain ⟨ts, hts, he⟩ := h
  refine ⟨ts, hts, ?_⟩
  unfold Level.ofPrecedence at he
  split_ifs at he
  · exact he
  · exact .condition he.binary_one
  · exact .condition (.operand he)
  · exact .condition (.operand (.unary he))

theorem binary_succ {op : BinaryOperator} (h : ReadsAs text (.ofPrecedence (op.precedence + 1)) e) :
    ReadsAs text (.binary (op.precedence + 1)) e := by
  obtain ⟨ts, hts, he⟩ := h
  refine ⟨ts, hts, ?_⟩
  rw [Level.ofPrecedence, if_neg (Nat.succ_ne_zero _)] at he
  have hlt := op.precedence_lt_unary
  split_ifs at he
  · exact he
  · exact .operand he
  · omega

end ReadsAs

namespace Expression

/-- An expression is read from its text at every level that its precedence allows. -/
def ReadsBack (e : Expression) : Prop :=
  ∀ j ≤ e.precedence, (e.isNegativeLiteral = true → j ≤ unaryPrecedence) →
    ReadsAs e.text (.ofPrecedence j) e.settled

namespace ReadsBack

variable {e : Expression}

/-- Every text can stand where any expression may. -/
theorem expression (h : e.ReadsBack) : ReadsAs e.text (.expression true) e.settled :=
  h 0 (Nat.zero_le _) fun _ => Nat.zero_le _

theorem asOperand (h : e.ReadsBack) {minimum : Nat} {wrapNegative : Bool}
    (hneg : e.isNegativeLiteral = true → wrapNegative = true ∨ minimum ≤ unaryPrecedence) :
    ReadsAs (e.asOperand e.text minimum wrapNegative) (.ofPrecedence minimum) e.settled := by
  unfold Expression.asOperand
  split_ifs with hwrap
  · obtain ⟨ts, hts, he⟩ := h.expression.parenthesized
    exact ReadsAs.of_postfixed ⟨ts, hts, .postfixed he⟩ minimum
  · simp only [Bool.or_eq_true, decide_eq_true_eq, Bool.and_eq_true, not_or, not_and] at hwrap
    refine h minimum (Nat.le_of_not_lt hwrap.1) fun hnegative => ?_
    rcases hneg hnegative with hwrapped | hle
    · exact absurd hnegative (hwrap.2 hwrapped)
    · exact hle

theorem asBranch (h : e.ReadsBack) {minimum : Nat} (hminimum : minimum ≤ unaryPrecedence) :
    ReadsAs (e.asBranch e.text minimum) (.ofPrecedence minimum) e.settled := by
  have hoperand : ReadsAs (e.asOperand e.text minimum false) (.ofPrecedence minimum) e.settled :=
    h.asOperand fun _ => .inr hminimum
  unfold Expression.asBranch
  dsimp only
  split_ifs
  · obtain ⟨ts, hts, he⟩ := hoperand.expression.parenthesized
    exact ReadsAs.of_postfixed ⟨ts, hts, .postfixed he⟩ minimum
  · exact hoperand

theorem satisfied (h : e.ReadsBack) :
    ReadsAs (e.asBranch e.text (conditionalPrecedence + 1)) (.expression false) e.settled := by
  have hbranch : ReadsAs (e.asBranch e.text 1) (.binary 1) e.settled := h.asBranch (by decide)
  obtain ⟨ts, hts, he⟩ := hbranch
  exact ⟨ts, hts, .condition he⟩

theorem unsatisfied (h : e.ReadsBack) :
    ReadsAs (e.asBranch e.text conditionalPrecedence) (.expression true) e.settled := by
  have hbranch : ReadsAs (e.asBranch e.text 0) (.ofPrecedence 0) e.settled :=
    h.asBranch (Nat.zero_le _)
  exact hbranch

end ReadsBack

theorem holdsText_question {code : String} (h : '?' ∈ code.toList) : holdsText code "?" = true := by
  have hsearch (cs : List Char) (h : '?' ∈ cs) : holdsText.search "?" cs = true := by
    induction cs with
    | nil => contradiction
    | cons c cs ih =>
      rw [holdsText.search, Bool.or_eq_true]
      rcases List.mem_cons.mp h with rfl | h
      · exact .inl rfl
      · exact .inr (ih h)
  exact hsearch _ h

/-- Code that can be read is read in place as the tree it spells. -/
theorem readsAs_raw {code : String} (h : (raw code).Legible) : ∃ opens ts,
    Spells code.toList ts ∧ Reads false code.toList ts [] ∧
      Derives (.expression opens) ts (raw code).settled := by
  obtain ⟨⟨e, he⟩, -, ts, hts⟩ := h
  obtain ⟨opens, us, hus, hd⟩ := ofText_eq_ok_iff.mp he
  obtain rfl := hus.unique hts.allow
  have hsettled : (raw code).settled = e := by
    rw [settled, he]
  refine ⟨opens, us, fun rest hrest => hts.extend hrest fun t ht => ?_, hts, hsettled ▸ hd⟩
  obtain ⟨last, hlast, hends⟩ := hd.getLast?_eq rfl
  rw [hlast] at ht
  cases ht
  cases t <;> first | rfl | contradiction

theorem readsBack_raw {code : String} (h : (raw code).Legible) : (raw code).ReadsBack := by
  intro j hj _
  obtain ⟨opens, ts, hspells, hreads, he⟩ := readsAs_raw h
  by_cases hatom : Atomic.holds code = true
  · have hprimary := he.primary_of_not_splits rfl fun before t after hts hdepth =>
      Atomic.splits_eq_false hatom h.2.1 hreads hts hdepth
    exact ReadsAs.of_postfixed ⟨ts, hspells, .postfixed hprimary⟩ j
  · rw [precedence, if_neg hatom] at hj
    obtain rfl := Nat.le_zero.mp hj
    refine ⟨ts, hspells, ?_⟩
    cases opens with
    | false => exact he.open_of_closed
    | true => exact he

theorem ReadsBack.asCondition {e : Expression} (h : e.ReadsBack) (hlegible : e.Legible) :
    ReadsAs (e.asCondition e.text) (.binary 1) e.settled := by
  unfold Expression.asCondition
  dsimp only
  split_ifs with hnested
  · obtain ⟨ts, hts, he⟩ := h.expression.parenthesized
    exact ⟨ts, hts, .operand (.unary (.postfixed he))⟩
  · simp only [Bool.or_eq_true, not_or] at hnested
    cases e with
    | conditional | guarded => exact absurd rfl hnested.1
    | raw code =>
      by_cases hatom : Atomic.holds code = true
      · refine h 1 ?_ fun _ => by decide
        rw [precedence, if_pos hatom]
        decide
      · obtain ⟨opens, ts, hspells, hreads, he⟩ := readsAs_raw hlegible
        refine ⟨ts, hspells, he.binary_of_not_mem fun hquestion => hnested.1 ?_⟩
        simp [holdsText_question (hreads.mem_of_question hquestion), hatom]
    | binary op => exact h 1 op.one_le_precedence fun _ => by decide
    | _ => exact h 1 (Nat.le_of_ble_eq_true rfl) fun _ => by decide

/-- Several arguments are read up to the parenthesis that closes them. -/
theorem reads_arguments {f : String} {es read : List Expression} {ts : List Token}
    (hes : ∀ e ∈ es, e.ReadsBack) (h : Derives .opened ts (.call f read)) :
    ∃ us, (∀ rest, Reads false ((",".intercalate (texts es)).toList ++ ')' :: rest) us rest) ∧
      Derives .primary (ts ++ us) (.call f (read ++ settledAll es)) := by
  induction es generalizing read ts with
  | nil =>
    refine ⟨[.rightParen], fun rest => reads_punctuation rfl .done, ?_⟩
    rw [settledAll, List.append_nil]
    exact .closeOpened h
  | cons e es ih =>
    obtain ⟨us, hus, he⟩ := (hes e (.head es)).expression
    have hfilled := h.argument he
    cases es with
    | nil =>
      refine ⟨us ++ [.rightParen], fun rest => ?_, ?_⟩
      · exact (hus _ (.cons (by decide) _)).append (reads_punctuation rfl .done)
      · rw [← List.append_assoc]
        exact .closeFilled hfilled
    | cons e' es =>
      obtain ⟨vs, hvs, hcall⟩ := ih (fun d hd => hes d (.tail _ hd)) hfilled.comma
      refine ⟨us ++ .comma :: vs, fun rest => ?_, ?_⟩
      · rw [texts, texts, String.intercalate_cons_cons, ← texts]
        simp only [String.toList_append, List.append_assoc]
        exact (hus _ (.cons (by decide) _)).append (reads_punctuation rfl (hvs rest))
      · simpa [settledAll] using hcall

theorem readsAs_call {f : String} {es : List Expression} (hf : isName f = true)
    (hes : ∀ e ∈ es, e.ReadsBack) :
    ReadsAs (call f es).text .primary (call f es).settled := by
  obtain ⟨us, hus, he⟩ := reads_arguments hes (.call f)
  refine ⟨_, fun rest hrest => ?_, he⟩
  rw [text, parenthesized]
  simp only [String.toList_append, List.append_assoc]
  exact (spells_name hf _ (.cons (by decide) _)).append (reads_punctuation rfl (hus rest))

theorem isNegativeLiteral_eq_false {a b : Expression} (ha : a.Legible)
    (hsigns : (index a b).signsApart = true) : a.isNegativeLiteral = false := by
  cases a with
  | int n => exact decide_eq_false (Int.not_lt.mpr (of_decide_eq_true hsigns))
  | float | indefinite => contradiction
  | _ => rfl

theorem legible_self {e : Expression} {p : Expression → Prop} (h : ∀ d ∈ e.parts, p d) : p e := by
  cases e <;> exact h _ (.head _)

theorem readsAs_index {a b : Expression} (ha : a.ReadsBack) (hb : b.ReadsBack)
    (hneg : a.isNegativeLiteral = false) :
    ReadsAs (index a b).text .postfixed (index a b).settled := by
  rw [text, settled]
  have htarget : ReadsAs (a.asOperand a.text atomPrecedence false) .postfixed a.settled :=
    ha.asOperand fun h => by
      rw [hneg] at h
      contradiction
  exact htarget.index hb.expression

theorem readsAs_binary {op : BinaryOperator} {a b : Expression} (ha : a.ReadsBack)
    (hb : b.ReadsBack) (hsigns : (binary op a b).signsApart = true) :
    ReadsAs (binary op a b).text (.binary op.precedence) (binary op a b).settled := by
  have hfirst : ReadsAs (a.asOperand a.text op.precedence false) (.binary op.precedence)
      a.settled := by
    rw [← Level.ofPrecedence_operator]
    exact ha.asOperand fun _ => .inr (Nat.le_of_lt op.precedence_lt_unary)
  have hsecond : ReadsAs (b.asOperand b.text (op.precedence + 1) op.isAdditive)
      (.binary (op.precedence + 1)) b.settled :=
    (hb.asOperand fun _ => .inr op.precedence_lt_unary).binary_succ
  rw [text_binary, settled_binary]
  refine hfirst.binary hsecond ?_
  rintro rfl
  exact bne_iff_ne.mp hsigns

theorem readsAs_unary {op : UnaryOperator} {a : Expression} (ha : a.ReadsBack)
    (hsigns : (unary op a).signsApart = true) :
    ReadsAs (unary op a).text .unary (unary op a).settled := by
  have hoperand : ReadsAs (a.asOperand a.text unaryPrecedence true) .unary a.settled :=
    ha.asOperand fun _ => .inl rfl
  rw [text]
  cases op with
  | not => exact hoperand.not
  | negate => exact hoperand.negate (bne_iff_ne.mp hsigns)

theorem readsAs_conditional {c s u : Expression} (hc : c.ReadsBack) (hlegible : c.Legible)
    (hs : s.ReadsBack) (hu : u.ReadsBack) :
    ReadsAs (conditional c s u).text (.expression true) (conditional c s u).settled := by
  rw [text, settled]
  exact (hc.asCondition hlegible).conditional hs.satisfied hu.unsatisfied

theorem readsAs_guarded {c s : Expression} (hc : c.ReadsBack) (hlegible : c.Legible)
    (hs : s.ReadsBack) : ReadsAs (guarded c s).text (.expression true) (guarded c s).settled := by
  rw [text, settled]
  exact (hc.asCondition hlegible).guarded hs.satisfied

theorem readsAs_string {value : String} (h : '\'' ∉ value.toList) :
    ReadsAs (string value).text .primary (string value) := by
  refine ⟨_, ?_, .string value⟩
  rw [text]
  simp only [String.toList_append]
  have hspells := spells_string h
  rwa [String.ofList_toList] at hspells

mutual

/-- An expression that is legible, with its signs apart, is read from its text. -/
theorem readsBack {e : Expression} (h : ∀ d ∈ e.parts, d.Legible ∧ d.signsApart = true) :
    e.ReadsBack := by
  intro j hj hneg
  cases e with
  | raw code => exact readsBack_raw (h _ (.head _)).1 j hj hneg
  | call f es =>
    obtain ⟨⟨hf, -⟩, hes⟩ := List.forall_mem_cons.mp h
    obtain ⟨ts, hts, he⟩ := readsAs_call hf (readsBack_all hes)
    exact ReadsAs.of_postfixed ⟨ts, hts, .postfixed he⟩ j
  | index a b =>
    simp only [parts, List.forall_mem_cons, List.forall_mem_append] at h
    obtain ⟨⟨-, hsigns⟩, ha, hb⟩ := h
    exact (readsAs_index (readsBack ha) (readsBack hb)
      (isNegativeLiteral_eq_false (legible_self ha).1 hsigns)).of_postfixed j
  | binary op a b =>
    simp only [parts, List.forall_mem_cons, List.forall_mem_append] at h
    obtain ⟨⟨-, hsigns⟩, ha, hb⟩ := h
    exact (readsAs_binary (readsBack ha) (readsBack hb) hsigns).of_binary hj
      (Nat.lt_of_le_of_lt hj op.precedence_lt_unary)
  | unary op a =>
    simp only [parts, List.forall_mem_cons] at h
    obtain ⟨⟨-, hsigns⟩, ha⟩ := h
    exact (readsAs_unary (readsBack ha) hsigns).of_unary hj
  | conditional c s u =>
    simp only [parts, List.forall_mem_cons, List.forall_mem_append] at h
    obtain ⟨-, ⟨hc, hs⟩, hu⟩ := h
    obtain rfl := Nat.le_zero.mp hj
    exact readsAs_conditional (readsBack hc) (legible_self hc).1 (readsBack hs) (readsBack hu)
  | guarded c s =>
    simp only [parts, List.forall_mem_cons, List.forall_mem_append] at h
    obtain ⟨-, hc, hs⟩ := h
    obtain rfl := Nat.le_zero.mp hj
    exact readsAs_guarded (readsBack hc) (legible_self hc).1 (readsBack hs)
  | int n =>
    obtain ⟨⟨hleast, hgreatest⟩, -⟩ := h _ (.head _)
    by_cases hn : n < 0
    · exact (ReadsAs.int_of_neg hn hleast).of_unary (hneg (decide_eq_true hn))
    · obtain ⟨ts, hts, he⟩ := ReadsAs.int_of_nonneg (Int.not_lt.mp hn) hgreatest
      exact ReadsAs.of_postfixed ⟨ts, hts, .postfixed he⟩ j
  | bool b => exact ReadsAs.of_postfixed ⟨_, spells_bool b, .postfixed (.bool b)⟩ j
  | string value =>
    obtain ⟨ts, hts, he⟩ := readsAs_string (h _ (.head _)).1
    exact ReadsAs.of_postfixed ⟨ts, hts, .postfixed he⟩ j
  | name x =>
    exact ReadsAs.of_postfixed ⟨_, spells_name (h _ (.head _)).1, .postfixed (.name x)⟩ j
  | float | indefinite | placeholder => exact absurd (h _ (.head _)).1 id

theorem readsBack_all {es : List Expression}
    (h : ∀ d ∈ partsOfAll es, d.Legible ∧ d.signsApart = true) : ∀ e ∈ es, e.ReadsBack := by
  cases es with
  | nil => nofun
  | cons e es =>
    simp only [partsOfAll, List.forall_mem_append] at h
    exact List.forall_mem_cons.mpr ⟨readsBack h.1, readsBack_all h.2⟩

end

/-- The text of a legible expression with its signs apart is accepted, and read as the expression
with its code and its signs settled. -/
theorem ofText_text_settled {e : Expression} (h : ∀ d ∈ e.parts, d.Legible ∧ d.signsApart = true) :
    ofText e.text = .ok e.settled := by
  obtain ⟨ts, hts, he⟩ := (readsBack h).expression
  have hreads := hts [] separate_nil
  rw [List.append_nil] at hreads
  exact ofText_eq_ok_iff.mpr ⟨true, ts, hreads.allow, he⟩

/-- The text of an expression that can be read can stand as code in another text. -/
theorem legible_raw_text {e : Expression} (h : ∀ d ∈ e.parts, d.Legible ∧ d.signsApart = true)
    (hquote : '"' ∉ e.text.toList) : (raw e.text).Legible := by
  obtain ⟨ts, hts, -⟩ := (readsBack h).expression
  have hreads := hts [] separate_nil
  rw [List.append_nil] at hreads
  exact ⟨⟨e.settled, ofText_text_settled h⟩, hquote, ts, hreads⟩

/-- Whether what an expression adds to its parts is written as it was read: no placeholder, no
fraction and no text with a quote in it. -/
def isPlain : Expression → Bool
  | placeholder _ | float _ => false
  | string value => !value.toList.contains '\''
  | _ => true

theorem legible_of_native {e : Expression} (hnative : e.Native) (hplain : e.isPlain = true) :
    e.Legible := by
  cases e with
  | int n => exact ⟨Int.lt_of_lt_of_le (by decide) hnative.1, hnative.2⟩
  | raw | indefinite | float | placeholder => contradiction
  | string => simpa [isPlain, Legible] using hplain
  | name | call => exact hnative
  | _ => trivial

/-- What is read from the text of an expression that was read is the expression again. -/
theorem ofText_text {source : String} {e : Expression} (h : ofText source = .ok e)
    (hplain : e.parts.all isPlain = true) (hsigns : e.parts.all signsApart = true) :
    ofText e.text = .ok e := by
  rw [List.all_eq_true] at hplain hsigns
  have hnative := native_of_ofText h
  rw [ofText_text_settled fun d hd =>
    ⟨legible_of_native (hnative d hd) (hplain d hd), hsigns d hd⟩, settled_eq_self hnative]

theorem ofText_text_choice : ∃ e, ofText "1-(2-a)?-3*4:'b'" = .ok e ∧
    e.parts.all isPlain = true ∧ e.parts.all signsApart = true ∧ ofText e.text = .ok e := by
  let e : Expression := .conditional
    (.binary .subtract (.int 1) (.binary .subtract (.int 2) (.name "a")))
    (.binary .multiply (.int (-3)) (.int 4)) (.string "b")
  have hplain : e.parts.all isPlain = true := by decide
  have hsigns : e.parts.all signsApart = true := by decide
  have hlegible : ∀ d ∈ e.parts, d.Legible := by
    have hname : Lexer.isName "a" = true := by decide
    have hleast : Number.Width.bits64.least = -0x8000000000000000 := by decide
    have hgreatest : Number.Width.bits64.greatest = 0x7fffffffffffffff := by decide
    simp [e, parts, Legible, hname, hleast, hgreatest]
  have hread : ofText e.text = .ok e :=
    ofText_text_settled fun d hd => ⟨hlegible d hd, List.all_eq_true.mp hsigns d hd⟩
  have htext : e.text = "1-(2-a)?-3*4:'b'" := by decide
  exact ⟨e, htext ▸ hread, hplain, hsigns, ofText_text hread hplain hsigns⟩

end Expression
end Hologram.Script
