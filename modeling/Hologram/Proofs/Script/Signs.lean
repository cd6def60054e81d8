import Hologram.Proofs.Number.Digits
import Hologram.Proofs.Script.Emission

/-! Which texts of expressions cannot be read. Two minus signs in a row are one token that no
expression has, and a number may be too large for a token. -/
namespace Hologram.Script
namespace Lexer

variable {cs ds rest : List Char} {ts us : List Token}

/-- A text that is read to the end only with two minus signs as one token in it. -/
def Unreadable (cs : List Char) : Prop :=
  ∀ ts, Reads true cs ts [] → .decrement ∈ ts

/-- A text that cannot be read whatever comes after it that does not go on with it. -/
def Spoils (cs : List Char) : Prop :=
  ∀ rest, Separate rest → Unreadable (cs ++ rest)

/-- A text with a first character before which every sign ends, apart from a minus before a
minus. -/
def Opens (cs : List Char) : Prop :=
  cs ≠ [] ∧ EndsSigns cs

/-- What is read from the front of a text is the front of all that is read from it. -/
theorem Reads.exists_append {comments : Bool} (h : Reads false cs ts rest)
    (h' : Reads comments cs us []) : ∃ vs, us = ts ++ vs ∧ Reads comments rest vs [] := by
  induction h generalizing us with
  | done => exact ⟨us, rfl, h'⟩
  | blank hc _ ih =>
    cases h' with
    | blank _ h' => exact ih h'
    | comment _ hc' =>
      rw [hc] at hc'
      contradiction
    | token hs =>
      rw [step_of_isSpace hc] at hs
      cases hs
  | comment => contradiction
  | token hs _ ih =>
    cases h' with
    | blank hc =>
      rw [step_of_isSpace hc] at hs
      cases hs
    | comment _ _ hs' =>
      rw [hs] at hs'
      cases hs'
    | token hs' h' =>
      rw [hs] at hs'
      cases hs'
      obtain ⟨vs, rfl, hvs⟩ := ih h'
      exact ⟨vs, rfl, hvs⟩

namespace Unreadable

theorem of_reads (h : Reads false cs ts rest) (hrest : Unreadable rest) : Unreadable cs := by
  intro us hus
  obtain ⟨vs, rfl, hvs⟩ := h.exists_append hus
  exact List.mem_append_right ts (hrest vs hvs)

theorem of_step {c : Char} {cause : SyntaxCause} (h : step c cs = .error cause) :
    Unreadable (c :: cs) := by
  intro ts hts
  cases hts with
  | blank hc =>
    rw [step_of_isSpace hc] at h
    contradiction
  | comment _ _ hs | token hs =>
    rw [hs] at h
    contradiction

theorem minus_minus (cs : List Char) : Unreadable ('-' :: '-' :: cs) := by
  intro ts hts
  have hstep : step '-' ('-' :: cs) = .ok (some .decrement, 1) := rfl
  cases hts with
  | blank => contradiction
  | comment _ _ hs =>
    rw [hstep] at hs
    cases hs
  | token hs =>
    rw [hstep] at hs
    cases hs
    exact .head _

end Unreadable

namespace Opens

theorem cons {d : Char} (h : d ∉ joined) (cs : List Char) : Opens (d :: cs) :=
  ⟨List.cons_ne_nil d cs, .of_not_mem h cs⟩

theorem append (h : Opens cs) (ds : List Char) : Opens (cs ++ ds) := by
  obtain ⟨c, cs, rfl⟩ := List.exists_cons_of_ne_nil h.1
  exact ⟨List.cons_ne_nil c _, h.2⟩

end Opens

theorem opens_of_isDigit {c : Char} (h : c.isDigit = true) (cs : List Char) : Opens (c :: cs) := by
  have hnone : joined.any Char.isDigit = false := by decide
  exact .cons (fun hmem => List.any_eq_false.mp hnone c hmem h) cs

theorem opens_natural (n : Nat) : Opens (Nat.toDigits 10 n) := by
  obtain ⟨c, cs, hcs, hc⟩ := Number.exists_cons_toDigits n
  rw [hcs]
  exact opens_of_isDigit hc cs

namespace Spoils

theorem append (h : Spoils cs) (hds : ∀ rest, Separate (ds ++ rest)) : Spoils (cs ++ ds) := by
  intro rest _
  rw [List.append_assoc]
  exact h _ (hds rest)

theorem after (hds : Spells ds ts) (h : Spoils cs) (hcs : ∀ rest, Separate (cs ++ rest)) :
    Spoils (ds ++ cs) := by
  intro rest hrest
  rw [List.append_assoc]
  exact .of_reads (hds _ (hcs rest)) (h rest hrest)

theorem punctuation {c : Char} {t : Token} (hc : punctuation? c = some t) (h : Spoils cs) :
    Spoils (c :: cs) :=
  fun rest hrest => .of_reads (reads_punctuation hc .done) (h rest hrest)

theorem sign {c : Char} {t : Token} (hc : singleSign? c = some t) (hminus : c ≠ '-')
    (hopens : Opens cs) (h : Spoils cs) : Spoils (c :: cs) := by
  intro rest hrest
  have hends := (hopens.append rest).2
  exact .of_reads (reads_sign hc (fun _ => hends.joins_eq_false hminus) .done) (h rest hrest)

theorem minus_minus (cs : List Char) : Spoils ('-' :: '-' :: cs) :=
  fun _ _ => .minus_minus _

/-- An operator before a text that cannot be read is read, or it is the first of two minus
signs. -/
theorem operator (op : BinaryOperator) (hopens : Opens cs) (h : Spoils cs) :
    Spoils (op.symbol.toList ++ cs) := by
  by_cases hminus : op = .subtract ∧ cs.head? = some '-'
  · obtain ⟨rfl, hhead⟩ := hminus
    obtain ⟨cs, rfl⟩ := List.head?_eq_some_iff.mp hhead
    exact minus_minus cs
  · intro rest hrest
    rw [List.append_assoc]
    refine .of_reads (reads_operator op (hopens.append rest).2 (fun hop hhead => ?_) .done)
      (h rest hrest)
    refine hminus ⟨hop, ?_⟩
    rwa [List.head?_append_of_ne_nil _ hopens.1] at hhead

end Spoils

/-- A number that is too large is no token. -/
theorem spoils_natural {n : Nat} (h : Number.Width.bits64.greatest < n) :
    Spoils (Nat.toDigits 10 n) := by
  have hvalue : Number.ofDigits (Nat.toDigits 10 n) = n := Nat.ofDigitChars_ten_toDigits
  have hdigits : ∀ d ∈ Nat.toDigits 10 n, d.isDigit = true := fun d hd =>
    Nat.isDigit_of_mem_toDigits (by decide) (by decide) hd
  obtain ⟨c, cs, hcs⟩ := List.exists_cons_of_ne_nil (Nat.toDigits_ne_nil (n := n) (b := 10))
  rw [hcs] at hvalue hdigits ⊢
  rw [List.forall_mem_cons] at hdigits
  have hholds : Number.Width.bits64.holds (Number.ofDigits (c :: cs)) = false := by
    rw [hvalue, ← Bool.not_eq_true, Number.Width.holds_iff]
    omega
  intro rest hrest
  have hstep : step c (cs ++ rest) = .error .malformedNumber := by
    rw [step_of_isDigit hdigits.1, number_append hrest, number_of_digits c hdigits.2, hholds]
    rfl
  exact Unreadable.of_step hstep

end Lexer
open Lexer

theorem separate_text (op : BinaryOperator) (cs rest : List Char) :
    Separate (op.symbol.toList ++ cs ++ rest) := by
  rw [List.append_assoc]
  exact separate_symbol op _

theorem ReadsAs.opens {text : String} {level : Level} {e : Expression}
    (h : ReadsAs text level e) : Opens text.toList := by
  obtain ⟨ts, hts, he⟩ := h
  have hreads := hts [] separate_nil
  rw [List.append_nil] at hreads
  refine ⟨fun hnil => ?_, he.endsSigns hreads⟩
  rw [hnil] at hreads
  cases hreads
  obtain ⟨t, us, hcons, -⟩ := he.exists_cons
  contradiction

namespace Expression

section
variable {p : String → Prop} (hp : ∀ text, p text → p (parenthesized text)) {e : Expression}
  (h : p e.text)
include hp h

/-- Wherever an expression stands, its text stands there with parentheses around it or without. -/
theorem asOperand_of_parenthesized (minimum : Nat) (wrapNegative : Bool) :
    p (e.asOperand e.text minimum wrapNegative) := by
  unfold asOperand
  split_ifs
  · exact hp _ h
  · exact h

theorem asBranch_of_parenthesized (minimum : Nat) : p (e.asBranch e.text minimum) := by
  have hoperand := asOperand_of_parenthesized hp h minimum false
  unfold asBranch
  dsimp only
  split_ifs
  · exact hp _ hoperand
  · exact hoperand

theorem asCondition_of_parenthesized : p (e.asCondition e.text) := by
  unfold asCondition
  dsimp only
  split_ifs
  · exact hp _ h
  · exact h

end

end Expression

namespace Lexer.Spoils

variable {e : Expression}

theorem parenthesized (text : String) (h : Spoils text.toList) :
    Spoils (Script.parenthesized text).toList := by
  simp only [Script.parenthesized, String.toList_append, List.append_assoc]
  exact .punctuation (c := '(') rfl (h.append fun rest => .cons (by decide) rest)

theorem asOperand (h : Spoils e.text.toList) (minimum : Nat) (wrapNegative : Bool) :
    Spoils (e.asOperand e.text minimum wrapNegative).toList :=
  Expression.asOperand_of_parenthesized (p := (Spoils ·.toList)) parenthesized h _ _

theorem asBranch (h : Spoils e.text.toList) (minimum : Nat) :
    Spoils (e.asBranch e.text minimum).toList :=
  Expression.asBranch_of_parenthesized (p := (Spoils ·.toList)) parenthesized h _

theorem asCondition (h : Spoils e.text.toList) : Spoils (e.asCondition e.text).toList :=
  Expression.asCondition_of_parenthesized (p := (Spoils ·.toList)) parenthesized h

end Lexer.Spoils

namespace Lexer.Opens

variable {e : Expression}

theorem parenthesized (text : String) : Opens (Script.parenthesized text).toList := by
  simp only [Script.parenthesized, String.toList_append, List.append_assoc]
  exact cons (d := '(') (by decide) _

theorem asOperand (h : Opens e.text.toList) (minimum : Nat) (wrapNegative : Bool) :
    Opens (e.asOperand e.text minimum wrapNegative).toList :=
  Expression.asOperand_of_parenthesized (p := (Opens ·.toList)) (fun _ _ => parenthesized _) h _ _

theorem asBranch (h : Opens e.text.toList) (minimum : Nat) :
    Opens (e.asBranch e.text minimum).toList :=
  Expression.asBranch_of_parenthesized (p := (Opens ·.toList)) (fun _ _ => parenthesized _) h _

theorem asCondition (h : Opens e.text.toList) : Opens (e.asCondition e.text).toList :=
  Expression.asCondition_of_parenthesized (p := (Opens ·.toList)) (fun _ _ => parenthesized _) h

end Lexer.Opens

namespace Expression

/-- What an expression adds to its parts can be read from its text, apart from integers that are too
large. -/
def Worded : Expression → Prop
  | int _ => True
  | e => e.Legible

/-- What an expression adds to its parts can be read, and it is no index of a negative literal. -/
def Rooted : Expression → Prop
  | index (int n) _ => 0 ≤ n
  | e => e.Worded

theorem opens_int (n : Int) : Opens (int n).text.toList := by
  rw [text, Number.toList_toString_int]
  split_ifs
  · exact .cons (by decide) _
  · exact opens_natural n.natAbs

/-- No text of an expression begins with a sign that goes on with another. -/
theorem opens_text {e : Expression} (h : ∀ d ∈ e.parts, d.Rooted) : Opens e.text.toList := by
  cases e with
  | int n => exact opens_int n
  | raw code =>
    obtain ⟨opens, ts, hspells, -, he⟩ := readsAs_raw (h (raw code) (.head _))
    exact ReadsAs.opens ⟨ts, hspells, he⟩
  | bool b => exact ReadsAs.opens ⟨_, spells_bool b, .bool b⟩
  | string value => exact (readsAs_string (h (string value) (.head _))).opens
  | name x => exact ReadsAs.opens ⟨_, spells_name (h (name x) (.head _)), .name x⟩
  | call f es =>
    rw [text, String.toList_append]
    have hname : Opens f.toList :=
      ReadsAs.opens ⟨_, spells_name (h (call f es) (.head _)), .name f⟩
    exact hname.append _
  | index a b | binary op a b =>
    simp only [parts, List.forall_mem_cons, List.forall_mem_append] at h
    rw [text]
    simp only [String.toList_append, List.append_assoc]
    exact ((opens_text h.2.1).asOperand _ _).append _
  | unary op a =>
    rw [text, String.toList_append]
    cases op <;> exact .cons (by decide) _
  | conditional c s u =>
    simp only [parts, List.forall_mem_cons, List.forall_mem_append] at h
    rw [text]
    simp only [String.toList_append, List.append_assoc]
    exact (opens_text h.2.1.1).asCondition.append _
  | guarded c s =>
    simp only [parts, List.forall_mem_cons, List.forall_mem_append] at h
    rw [text]
    simp only [String.toList_append, List.append_assoc]
    exact (opens_text h.2.1).asCondition.append _
  | float | indefinite | placeholder => exact absurd (h _ (.head _)) id

/-- Every part of an expression can be read from its text, with its signs apart. -/
def Readable (e : Expression) : Prop :=
  ∀ d ∈ e.parts, d.Legible ∧ d.signsApart = true

/-- A text of arguments that cannot be read up to the parenthesis after it. -/
def SpoilsArguments (es : List Expression) : Prop :=
  ∀ rest, Unreadable ((",".intercalate (texts es)).toList ++ ')' :: rest)

section
variable {a b c : Expression} {op : BinaryOperator} {cs : List Char}

theorem spoils_int {n : Int} (h : ¬ (int n).Legible) : Spoils (int n).text.toList := by
  have hleast := Number.Width.least_eq .bits64
  have hlarge : Number.Width.bits64.greatest < n.natAbs := by
    by_contra hsmall
    refine h ⟨?_, ?_⟩ <;> omega
  have hdigits := spoils_natural hlarge
  rw [text, Number.toList_toString_int]
  split_ifs
  · exact .operator .subtract (opens_natural _) hdigits
  · exact hdigits

theorem spoils_index_target (ha : Spoils a.text.toList) : Spoils (index a b).text.toList := by
  rw [text]
  simp only [String.toList_append, List.append_assoc]
  exact (ha.asOperand _ _).append fun rest => .cons (by decide) _

theorem spoils_index_position (ha : a.ReadsBack) (hneg : a.isNegativeLiteral = false)
    (hb : Spoils b.text.toList) : Spoils (index a b).text.toList := by
  obtain ⟨ts, hts, -⟩ : ReadsAs (a.asOperand a.text atomPrecedence false)
      (.ofPrecedence atomPrecedence) a.settled := ha.asOperand fun h => by
    rw [hneg] at h
    contradiction
  rw [text]
  simp only [String.toList_append, List.append_assoc]
  exact .after hts (.punctuation (c := '[') rfl (hb.append fun rest => .cons (by decide) rest))
    fun rest => .cons (by decide) _

theorem spoils_binary_first (ha : Spoils a.text.toList) :
    Spoils (binary op a b).text.toList := by
  rw [text_binary]
  simp only [String.toList_append, List.append_assoc]
  exact (ha.asOperand _ _).append (separate_text op _)

theorem spoils_binary_second (ha : a.ReadsBack) (hb : Spoils (op.symbol.toList ++
      (b.asOperand b.text (op.precedence + 1) op.isAdditive).toList)) :
    Spoils (binary op a b).text.toList := by
  obtain ⟨ts, hts, -⟩ : ReadsAs (a.asOperand a.text op.precedence false)
      (.ofPrecedence op.precedence) a.settled :=
    ha.asOperand fun _ => .inr (Nat.le_of_lt op.precedence_lt_unary)
  rw [text_binary]
  simp only [String.toList_append, List.append_assoc]
  exact .after hts hb (separate_text op _)

theorem spoils_binary_signs (ha : a.ReadsBack) (h : ¬ (binary op a b).signsApart = true) :
    Spoils (binary op a b).text.toList := by
  refine spoils_binary_second ha ?_
  cases op with
  | subtract =>
    simp only [signsApart, bne_iff_ne, not_not] at h
    obtain ⟨cs, hcs⟩ := List.head?_eq_some_iff.mp h
    rw [BinaryOperator.isAdditive, hcs]
    exact .minus_minus cs
  | _ => exact absurd rfl h

theorem spoils_unary {op : UnaryOperator} (hopens : Opens a.text.toList)
    (ha : Spoils a.text.toList) : Spoils (unary op a).text.toList := by
  rw [text, String.toList_append]
  cases op with
  | not => exact .sign (c := '!') rfl (by decide) (hopens.asOperand _ _) (ha.asOperand _ _)
  | negate => exact .operator .subtract (hopens.asOperand _ _) (ha.asOperand _ _)

theorem spoils_unary_signs {op : UnaryOperator} (h : ¬ (unary op a).signsApart = true) :
    Spoils (unary op a).text.toList := by
  cases op with
  | not => exact absurd rfl h
  | negate =>
    simp only [signsApart, bne_iff_ne, not_not] at h
    obtain ⟨cs, hcs⟩ := List.head?_eq_some_iff.mp h
    rw [text, String.toList_append, hcs]
    exact .minus_minus cs

theorem spoils_condition (hc : Spoils c.text.toList) (cs : List Char) :
    Spoils ((c.asCondition c.text).toList ++ '?' :: cs) :=
  hc.asCondition.append fun _ => .cons (by decide) _

theorem spoils_question (hc : c.ReadsBack) (hlegible : c.Legible) (hopens : Opens cs)
    (hcs : Spoils cs) : Spoils ((c.asCondition c.text).toList ++ '?' :: cs) := by
  obtain ⟨ts, hts, -⟩ := hc.asCondition hlegible
  exact .after hts (.sign rfl (by decide) hopens hcs) fun _ => .cons (by decide) _

theorem spoils_arguments_first {e : Expression} {es : List Expression}
    (he : Spoils e.text.toList) : SpoilsArguments (e :: es) := by
  intro rest
  cases es with
  | nil => exact he _ (.cons (by decide) rest)
  | cons e' es =>
    rw [texts, texts, String.intercalate_cons_cons, ← texts]
    simp only [String.toList_append, List.append_assoc]
    exact he _ (.cons (by decide) _)

theorem spoils_arguments_rest {e e' : Expression} {es : List Expression} (he : e.ReadsBack)
    (hes : SpoilsArguments (e' :: es)) : SpoilsArguments (e :: e' :: es) := by
  intro rest
  obtain ⟨ts, hts, -⟩ := he.expression
  rw [texts, texts, String.intercalate_cons_cons, ← texts]
  simp only [String.toList_append, List.append_assoc]
  exact .of_reads (hts _ (.cons (by decide) _))
    (.of_reads (reads_punctuation (c := ',') rfl .done) (hes rest))

theorem spoils_call {f : String} {es : List Expression} (hf : isName f = true)
    (hes : SpoilsArguments es) : Spoils (call f es).text.toList := by
  intro rest hrest
  rw [text, parenthesized]
  simp only [String.toList_append, List.append_assoc]
  exact .of_reads (spells_name hf _ (.cons (by decide) _))
    (.of_reads (reads_punctuation (c := '(') rfl .done) (hes rest))

end

mutual

/-- If the text of an expression can be read, every part of it can be. -/
theorem readable_of_not_spoils {e : Expression} (h : ∀ d ∈ e.parts, d.Rooted)
    (hs : ¬ Spoils e.text.toList) : e.Readable := by
  -- The parts are taken in their order: what was found readable is read past, so that the next part
  -- would spoil the text.
  cases e with
  | int n =>
    refine List.forall_mem_singleton.mpr ⟨?_, rfl⟩
    by_contra hlegible
    exact hs (spoils_int hlegible)
  | raw | bool | string | name | float | indefinite | placeholder =>
    exact List.forall_mem_singleton.mpr ⟨h _ (.head _), rfl⟩
  | call f es =>
    obtain ⟨hf, hes⟩ := List.forall_mem_cons.mp h
    exact List.forall_mem_cons.mpr ⟨⟨hf, rfl⟩,
      readable_of_not_spoilsArguments hes fun hspoils => hs (spoils_call hf hspoils)⟩
  | index a b =>
    simp only [parts, List.forall_mem_cons, List.forall_mem_append] at h
    have hsigns : (index a b).signsApart = true := by
      cases a with
      | int n => exact decide_eq_true h.1
      | _ => rfl
    have ha := readable_of_not_spoils h.2.1 fun ha => hs (spoils_index_target ha)
    have hneg := isNegativeLiteral_eq_false (legible_self ha).1 hsigns
    have hb := readable_of_not_spoils h.2.2 fun hb =>
      hs (spoils_index_position (readsBack ha) hneg hb)
    exact List.forall_mem_cons.mpr ⟨⟨trivial, hsigns⟩, List.forall_mem_append.mpr ⟨ha, hb⟩⟩
  | binary op a b =>
    simp only [parts, List.forall_mem_cons, List.forall_mem_append] at h
    have ha := readable_of_not_spoils h.2.1 fun ha => hs (spoils_binary_first ha)
    have hb := readable_of_not_spoils h.2.2 fun hb => hs (spoils_binary_second (readsBack ha)
      (.operator op ((opens_text h.2.2).asOperand _ _) (hb.asOperand _ _)))
    have hsigns : (binary op a b).signsApart = true := by
      by_contra hsigns
      exact hs (spoils_binary_signs (readsBack ha) hsigns)
    exact List.forall_mem_cons.mpr ⟨⟨trivial, hsigns⟩, List.forall_mem_append.mpr ⟨ha, hb⟩⟩
  | unary op a =>
    simp only [parts, List.forall_mem_cons] at h
    have ha := readable_of_not_spoils h.2 fun ha => hs (spoils_unary (opens_text h.2) ha)
    have hsigns : (unary op a).signsApart = true := by
      by_contra hsigns
      exact hs (spoils_unary_signs hsigns)
    exact List.forall_mem_cons.mpr ⟨⟨trivial, hsigns⟩, ha⟩
  | conditional c s u =>
    simp only [parts, List.forall_mem_cons, List.forall_mem_append] at h
    simp only [text, String.toList_append, List.append_assoc] at hs
    have hc := readable_of_not_spoils h.2.1.1 fun hc => hs (spoils_condition hc _)
    have hopens := ((opens_text h.2.1.2).asBranch (conditionalPrecedence + 1)).append
      (':' :: (u.asBranch u.text conditionalPrecedence).toList)
    have hbranches : ¬ Spoils ((s.asBranch s.text (conditionalPrecedence + 1)).toList ++
        ':' :: (u.asBranch u.text conditionalPrecedence).toList) := fun hspoils =>
      hs (spoils_question (readsBack hc) (legible_self hc).1 hopens hspoils)
    have hs := readable_of_not_spoils h.2.1.2 fun hs =>
      hbranches ((hs.asBranch _).append fun rest => .cons (by decide) _)
    obtain ⟨ts, hts, -⟩ := (readsBack hs).satisfied
    have hu := readable_of_not_spoils h.2.2 fun hu => hbranches
      (.after hts (.punctuation rfl (hu.asBranch _)) fun rest => .cons (by decide) _)
    exact List.forall_mem_cons.mpr ⟨⟨trivial, rfl⟩,
      List.forall_mem_append.mpr ⟨List.forall_mem_append.mpr ⟨hc, hs⟩, hu⟩⟩
  | guarded c s =>
    simp only [parts, List.forall_mem_cons, List.forall_mem_append] at h
    simp only [text, String.toList_append, List.append_assoc] at hs
    have hc := readable_of_not_spoils h.2.1 fun hc => hs (spoils_condition hc _)
    have hs := readable_of_not_spoils h.2.2 fun hspoils =>
      hs (spoils_question (readsBack hc) (legible_self hc).1 ((opens_text h.2.2).asBranch _)
        (hspoils.asBranch _))
    exact List.forall_mem_cons.mpr ⟨⟨trivial, rfl⟩, List.forall_mem_append.mpr ⟨hc, hs⟩⟩

theorem readable_of_not_spoilsArguments {es : List Expression}
    (h : ∀ d ∈ partsOfAll es, d.Rooted) (hs : ¬ SpoilsArguments es) :
    ∀ d ∈ partsOfAll es, d.Legible ∧ d.signsApart = true := by
  cases es with
  | nil => nofun
  | cons e es =>
    simp only [partsOfAll, List.forall_mem_append] at h ⊢
    have he := readable_of_not_spoils h.1 fun he => hs (spoils_arguments_first he)
    refine ⟨he, ?_⟩
    cases es with
    | nil => nofun
    | cons e' es =>
      exact readable_of_not_spoilsArguments h.2 fun hes =>
        hs (spoils_arguments_rest (readsBack he) hes)

end

end Expression

namespace Expression

/-- An expression whose text is read is the expression that is read, with its code and its signs
settled. -/
theorem eq_settled_of_ofText {e t : Expression} (h : ∀ d ∈ e.parts, d.Rooted)
    (ht : ofText e.text = .ok t) : t = e.settled := by
  have hreadable : e.Readable := by
    refine readable_of_not_spoils h fun hspoils => ?_
    obtain ⟨opens, ts, hts, hd⟩ := ofText_eq_ok_iff.mp ht
    have hunreadable := hspoils [] separate_nil
    rw [List.append_nil] at hunreadable
    exact absurd (hd.inExpression _ (hunreadable ts hts)) (by decide)
  rw [ofText_text_settled hreadable] at ht
  exact (Except.ok.inj ht).symm

end Expression
end Hologram.Script
