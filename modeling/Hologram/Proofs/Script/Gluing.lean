import Hologram.Proofs.Number.LiteralText
import Hologram.Proofs.Script.Signs

/-! Which tokens the text of an expression has. Signs are written without blanks and read as far as
they go, so that the minus of an operator and the minus that an operand begins with are one token.
Parentheses keep a negative literal off an operator, and nothing else that begins with a minus. -/
namespace Hologram.Script
namespace Lexer

variable {cs ds rest : List Char} {ts us : List Token} {o o' : Option (List Token)}

/-- A text that is read as some tokens, or that cannot be read, whatever comes after it that does
not go on with it. -/
def Yields (cs : List Char) (o : Option (List Token)) : Prop :=
  ∀ comments rest, Separate rest → ∀ us, Reads comments (cs ++ rest) us [] ↔
    ∃ ts vs, o = some ts ∧ us = ts ++ vs ∧ Reads comments rest vs []

/-- The tokens of two texts, if both can be read. -/
def both (o o' : Option (List Token)) : Option (List Token) :=
  o.bind fun ts => o'.map (ts ++ ·)

theorem both_eq_some_iff : both o o' = some ts ↔
    ∃ us vs, o = some us ∧ o' = some vs ∧ ts = us ++ vs := by
  cases o <;> cases o' <;> simp [both, eq_comm]

namespace Yields

/-- What is read before a text goes before its tokens. -/
theorem after (hds : ∀ rest, Separate rest → Reads false (ds ++ (cs ++ rest)) ts (cs ++ rest))
    (h : Yields cs o) : Yields (ds ++ cs) (both (some ts) o) := by
  intro comments rest hrest us
  rw [List.append_assoc]
  constructor
  · intro hus
    obtain ⟨vs, rfl, hvs⟩ := (hds rest hrest).exists_append hus
    obtain ⟨ws, xs, ho, rfl, hxs⟩ := (h comments rest hrest vs).mp hvs
    exact ⟨ts ++ ws, xs, both_eq_some_iff.mpr ⟨ts, ws, rfl, ho, rfl⟩,
      (List.append_assoc ..).symm, hxs⟩
  · rintro ⟨_, xs, hboth, rfl, hxs⟩
    obtain ⟨_, ws, ⟨⟩, ho, rfl⟩ := both_eq_some_iff.mp hboth
    rw [List.append_assoc]
    exact (hds rest hrest).allow.append ((h comments rest hrest _).mpr ⟨ws, xs, ho, rfl, hxs⟩)

theorem nil : Yields [] (some []) := by
  intro comments rest hrest us
  constructor
  · exact fun h => ⟨[], us, rfl, rfl, h⟩
  · rintro ⟨_, vs, ⟨⟩, rfl, h⟩
    exact h

theorem of_spells (h : Spells cs ts) : Yields cs (some ts) := by
  have hafter : Yields (cs ++ []) (both (some ts) (some [])) :=
    after (fun rest hrest => h rest hrest) nil
  simpa [both] using hafter

theorem append (h : Yields cs o) (h' : Yields ds o') (hds : ∀ rest, Separate (ds ++ rest)) :
    Yields (cs ++ ds) (both o o') := by
  intro comments rest hrest us
  rw [List.append_assoc, h comments _ (hds rest)]
  constructor
  · rintro ⟨ts, vs, rfl, rfl, hvs⟩
    obtain ⟨ws, xs, rfl, rfl, hxs⟩ := (h' comments rest hrest vs).mp hvs
    exact ⟨ts ++ ws, xs, rfl, (List.append_assoc ..).symm, hxs⟩
  · rintro ⟨_, xs, hboth, rfl, hxs⟩
    obtain ⟨ts, ws, rfl, rfl, rfl⟩ := both_eq_some_iff.mp hboth
    exact ⟨ts, ws ++ xs, rfl, List.append_assoc .., (h' comments rest hrest _).mpr
      ⟨ws, xs, rfl, rfl, hxs⟩⟩

/-- To its end a text is read as its tokens alone. -/
theorem reads_iff (h : Yields cs o) {comments : Bool} : Reads comments cs us [] ↔ o = some us := by
  have hend := h comments [] separate_nil us
  rw [List.append_nil] at hend
  rw [hend]
  constructor
  · rintro ⟨ts, vs, rfl, rfl, hvs⟩
    cases hvs
    rw [List.append_nil]
  · rintro rfl
    exact ⟨us, [], rfl, (List.append_nil us).symm, .done⟩

/-- A text whose first token cannot be read. -/
theorem of_error {c : Char} {cause : SyntaxCause}
    (h : ∀ rest, Separate rest → step c (cs ++ rest) = .error cause) : Yields (c :: cs) none := by
  intro comments rest hrest us
  rw [List.cons_append]
  constructor
  · intro hus
    have hstep := h rest hrest
    cases hus with
    | blank hc =>
      rw [step_of_isSpace hc] at hstep
      contradiction
    | comment _ _ hs | token hs =>
      rw [hs] at hstep
      contradiction
  · rintro ⟨_, _, hnone, -⟩
    contradiction

end Yields

/-- The tokens of a run of minus signs, which are read two at a time. -/
def minuses : Nat → List Token
  | 0 => []
  | 1 => [.operator .subtract]
  | k + 2 => .decrement :: minuses k

theorem decrement_mem_minuses_iff (k : Nat) : .decrement ∈ minuses k ↔ 2 ≤ k := by
  cases k using minuses.fun_cases with
  | case1 | case2 => simp [minuses]
  | case3 => simp [minuses]

theorem increment_not_mem_minuses (k : Nat) : .increment ∉ minuses k := by
  induction k using minuses.induct with
  | case1 | case2 => simp [minuses]
  | case3 k ih => simpa [minuses] using ih

theorem reads_minuses (hends : EndsSigns cs) (hhead : cs.head? ≠ some '-') (k : Nat) :
    Reads false (List.replicate k '-' ++ cs) (minuses k) cs := by
  induction k using minuses.induct with
  | case1 => exact .done
  | case2 => exact reads_operator .subtract hends (fun _ => hhead) .done
  | case3 k ih =>
    have hstep : step '-' ('-' :: (List.replicate k '-' ++ cs)) = .ok (some .decrement, 1) := rfl
    exact .token hstep ih

/-- A text of some minus signs and a text that begins with none, of which the tokens are given. -/
def Signed (cs : List Char) (k : Nat) (o : Option (List Token)) : Prop :=
  ∃ body, cs = List.replicate k '-' ++ body ∧ Opens body ∧ body.head? ≠ some '-' ∧ Yields body o

namespace Signed

variable {k : Nat}

theorem opens (h : Signed cs k o) : Opens cs := by
  obtain ⟨body, rfl, hopens, -⟩ := h
  cases k with
  | zero => exact hopens
  | succ k => exact .cons (by decide) _

theorem head?_eq_minus_iff (h : Signed cs k o) : cs.head? = some '-' ↔ k ≠ 0 := by
  obtain ⟨body, rfl, -, hhead, -⟩ := h
  cases k with
  | zero => simpa using hhead
  | succ k => simp [List.replicate_succ]

theorem yields (h : Signed cs k o) : Yields cs (both (some (minuses k)) o) := by
  obtain ⟨body, rfl, hopens, hhead, hbody⟩ := h
  refine hbody.after fun rest _ => reads_minuses (hopens.append rest).2 ?_ k
  rwa [List.head?_append_of_ne_nil _ hopens.1]

theorem append (h : Signed cs k o) (h' : Yields ds o') (hds : ∀ rest, Separate (ds ++ rest)) :
    Signed (cs ++ ds) k (both o o') := by
  obtain ⟨body, rfl, hopens, hhead, hbody⟩ := h
  refine ⟨body ++ ds, List.append_assoc .., hopens.append ds, ?_, hbody.append h' hds⟩
  rwa [List.head?_append_of_ne_nil _ hopens.1]

theorem minus (h : Signed cs k o) : Signed ('-' :: cs) (k + 1) o := by
  obtain ⟨body, rfl, hopens, hhead, hbody⟩ := h
  exact ⟨body, rfl, hopens, hhead, hbody⟩

end Signed

variable {large glued large' glued' : Bool} {k : Nat}

/-- Whether a text can be read only with a number in it that is too large, and, if it can be read,
whether two minus signs in it are one token. -/
def Told (cs : List Char) (large glued : Bool) : Prop :=
  ∃ o, Yields cs o ∧ o.isNone = large ∧
    ∀ ts, o = some ts → .increment ∉ ts ∧ (.decrement ∈ ts ↔ glued = true)

/-- The same of a text that more minus signs may come before. -/
def Tells (cs : List Char) (large glued : Bool) : Prop :=
  ∃ k o, Signed cs k o ∧ o.isNone = large ∧
    ∀ ts, o = some ts → .increment ∉ ts ∧ (.decrement ∈ ts ∨ 2 ≤ k ↔ glued = true)

theorem isNone_both : (both o o').isNone = (o.isNone || o'.isNone) := by
  cases o <;> cases o' <;> rfl

namespace Told

theorem of_yields (h : Yields cs (some ts)) (hincrement : .increment ∉ ts)
    (hdecrement : .decrement ∉ ts) : Told cs false false := by
  refine ⟨some ts, h, rfl, ?_⟩
  rintro _ ⟨⟩
  exact ⟨hincrement, by simpa using hdecrement⟩

theorem nil : Told [] false false :=
  of_yields .nil List.not_mem_nil List.not_mem_nil

theorem append (h : Told cs large glued) (h' : Told ds large' glued')
    (hds : ∀ rest, Separate (ds ++ rest)) :
    Told (cs ++ ds) (large || large') (glued || glued') := by
  obtain ⟨o, ho, hlarge, hglued⟩ := h
  obtain ⟨o', ho', hlarge', hglued'⟩ := h'
  refine ⟨both o o', ho.append ho' hds, by rw [isNone_both, hlarge, hlarge'], fun ts hts => ?_⟩
  obtain ⟨us, vs, hus, hvs, rfl⟩ := both_eq_some_iff.mp hts
  obtain ⟨hincrement, hdecrement⟩ := hglued us hus
  obtain ⟨hincrement', hdecrement'⟩ := hglued' vs hvs
  rw [List.mem_append, List.mem_append, hdecrement, hdecrement', Bool.or_eq_true, not_or]
  exact ⟨⟨hincrement, hincrement'⟩, Iff.rfl⟩

theorem after (hds : ∀ rest, Separate rest → Reads false (ds ++ (cs ++ rest)) ts (cs ++ rest))
    (hincrement : .increment ∉ ts) (hdecrement : .decrement ∉ ts) (h : Told cs large glued) :
    Told (ds ++ cs) large glued := by
  obtain ⟨o, ho, hlarge, hglued⟩ := h
  refine ⟨both (some ts) o, ho.after hds, by rw [isNone_both, hlarge]; rfl, fun us hus => ?_⟩
  obtain ⟨_, vs, ⟨⟩, hvs, rfl⟩ := both_eq_some_iff.mp hus
  obtain ⟨hincrement', hdecrement'⟩ := hglued vs hvs
  rw [List.mem_append, List.mem_append, hdecrement', not_or]
  exact ⟨⟨hincrement, hincrement'⟩, or_iff_right hdecrement⟩

theorem punctuation {c : Char} {t : Token} (hc : punctuation? c = some t)
    (h : Told cs large glued) : Told (c :: cs) large glued := by
  have hsign : ∀ entry ∈ punctuations, entry.2 ≠ .increment ∧ entry.2 ≠ .decrement := by
    simp [punctuations]
  obtain ⟨hincrement, hdecrement⟩ := hsign _ (mem_punctuations hc)
  change Told ([c] ++ cs) large glued
  exact h.after (fun _ _ => reads_punctuation hc .done)
    (by simpa using hincrement.symm) (by simpa using hdecrement.symm)

end Told

namespace Tells

theorem of_told (h : Told cs large glued) (hopens : Opens cs) (hhead : cs.head? ≠ some '-') :
    Tells cs large glued := by
  obtain ⟨o, ho, hlarge, hglued⟩ := h
  refine ⟨0, o, ⟨cs, rfl, hopens, hhead, ho⟩, hlarge, fun ts hts => ?_⟩
  simpa using hglued ts hts

theorem opens (h : Tells cs large glued) : Opens cs := by
  obtain ⟨k, o, ho, -⟩ := h
  exact ho.opens

theorem told (h : Tells cs large glued) : Told cs large glued := by
  obtain ⟨k, o, ho, hlarge, hglued⟩ := h
  refine ⟨_, ho.yields, by rw [isNone_both, hlarge]; rfl, fun us hus => ?_⟩
  obtain ⟨_, ts, ⟨⟩, hts, rfl⟩ := both_eq_some_iff.mp hus
  obtain ⟨hincrement, hdecrement⟩ := hglued ts hts
  rw [List.mem_append, List.mem_append, decrement_mem_minuses_iff, not_or, or_comm]
  exact ⟨⟨increment_not_mem_minuses k, hincrement⟩, hdecrement⟩

theorem append (h : Tells cs large glued) (h' : Told ds large' glued')
    (hds : ∀ rest, Separate (ds ++ rest)) :
    Tells (cs ++ ds) (large || large') (glued || glued') := by
  obtain ⟨k, o, ho, hlarge, hglued⟩ := h
  obtain ⟨o', ho', hlarge', hglued'⟩ := h'
  refine ⟨k, both o o', ho.append ho' hds, by rw [isNone_both, hlarge, hlarge'], fun ts hts => ?_⟩
  obtain ⟨us, vs, hus, hvs, rfl⟩ := both_eq_some_iff.mp hts
  obtain ⟨hincrement, hdecrement⟩ := hglued us hus
  obtain ⟨hincrement', hdecrement'⟩ := hglued' vs hvs
  rw [List.mem_append, List.mem_append, Bool.or_eq_true, ← hdecrement, ← hdecrement', not_or]
  exact ⟨⟨hincrement, hincrement'⟩, or_right_comm⟩

/-- A minus sign is one token with the minus sign that a text begins with. -/
theorem minus (h : Tells cs large glued) :
    Tells ('-' :: cs) large (cs.head? == some '-' || glued) := by
  obtain ⟨k, o, ho, hlarge, hglued⟩ := h
  refine ⟨k + 1, o, ho.minus, hlarge, fun ts hts => ?_⟩
  obtain ⟨hincrement, hdecrement⟩ := hglued ts hts
  refine ⟨hincrement, ?_⟩
  rw [Bool.or_eq_true, beq_iff_eq, ho.head?_eq_minus_iff, ← hdecrement]
  constructor
  · rintro (hmem | hk)
    · exact .inr (.inl hmem)
    · exact .inl (by omega)
  · rintro (hk | hmem | hk)
    · exact .inr (by omega)
    · exact .inl hmem
    · exact .inr (by omega)

/-- An operator is a token of its own, unless it is a minus sign before another. -/
theorem operator (op : BinaryOperator) (h : Tells cs large glued) :
    Told (op.symbol.toList ++ cs) large ((op == .subtract && cs.head? == some '-') || glued) := by
  by_cases hop : op = .subtract
  · subst hop
    exact h.minus.told
  · have hnone : (op == .subtract && cs.head? == some '-') = false := by simp [hop]
    have hreads (rest : List Char) (_ : Separate rest) :
        Reads false (op.symbol.toList ++ (cs ++ rest)) [.operator op] (cs ++ rest) :=
      reads_operator op (h.opens.append rest).2 (fun heq => absurd heq hop) .done
    rw [hnone]
    exact h.told.after hreads (by simp) (by simp)

/-- A sign of one character is a token of its own before a text that begins with none that joins
it. -/
theorem sign {c : Char} {t : Token} (hc : singleSign? c = some t) (hminus : c ≠ '-')
    (h : Tells cs large glued) : Told (c :: cs) large glued := by
  have hsigns : t ≠ .increment ∧ t ≠ .decrement := by
    unfold singleSign? at hc
    split at hc <;> cases hc <;> simp
  have hreads (rest : List Char) (_ : Separate rest) :
      Reads false ([c] ++ (cs ++ rest)) [t] (cs ++ rest) :=
    reads_sign hc (fun _ => (h.opens.append rest).2.joins_eq_false hminus) .done
  exact h.told.after hreads (by simpa using hsigns.1.symm) (by simpa using hsigns.2.symm)

theorem parenthesized (text : String) (h : Tells text.toList large glued) :
    Tells (Script.parenthesized text).toList large glued := by
  simp only [Script.parenthesized, String.toList_append, List.append_assoc]
  have hclose : Told (text.toList ++ [')']) (large || false) (glued || false) :=
    h.told.append (.punctuation rfl .nil) fun rest => .cons (by decide) rest
  rw [Bool.or_false, Bool.or_false] at hclose
  exact of_told (.punctuation (c := '(') rfl hclose) (.cons (by decide) _) (by simp)

/-- A text of one token that is no sign. -/
theorem of_spells {t : Token} (h : Spells cs [t]) (hsign : t.isSign = false)
    (hopens : t.opensOperand = true) : Tells cs false false := by
  have hreads := h [] separate_nil
  rw [List.append_nil] at hreads
  refine of_told (.of_yields (.of_spells h) ?_ ?_) ⟨?_, endsSigns_of_reads hreads hopens⟩ ?_
  · rw [List.mem_singleton]
    rintro rfl
    contradiction
  · rw [List.mem_singleton]
    rintro rfl
    contradiction
  · rintro rfl
    cases hreads
  · intro hhead
    obtain ⟨cs, rfl⟩ := List.head?_eq_some_iff.mp hhead
    cases hreads with
    | blank => contradiction
    | comment => contradiction
    | token hs =>
      rw [(sign_of_ok hs).1] at hsign
      contradiction

end Tells

/-- Digits with a point among them are one number. -/
theorem spells_point {fs : List Char} (hds : Number.IsDigits ds) (hfs : Number.IsDigits fs) :
    Spells (ds ++ '.' :: fs) [.float (Number.ofParts ds fs)] := by
  obtain ⟨c, cs, rfl⟩ := List.exists_cons_of_ne_nil hds.1
  obtain ⟨hc, hcs⟩ := List.forall_mem_cons.mp hds.2
  have hwhole : (cs ++ '.' :: fs).takeWhile Char.isDigit = cs := by
    rw [List.takeWhile_append_of_pos hcs, List.takeWhile_cons_of_neg (by decide), List.append_nil]
  have hfraction : fractionOf (cs ++ '.' :: fs) = fs := by
    unfold fractionOf
    rw [List.dropWhile_append_of_pos hcs, List.dropWhile_cons_of_neg (by decide)]
    exact List.takeWhile_eq_self_iff.mpr hfs.2
  rw [List.cons_append]
  refine spells_of_step ?_ rfl
  rw [step_of_isDigit hc, number_eq, hwhole, hfraction, if_neg (by simpa using hfs.1),
    List.length_append, List.length_cons]
  simp only [Except.ok.injEq, Prod.mk.injEq, true_and]
  omega

/-- Digits beyond the integers of 64 bits are no number. -/
theorem yields_none_of_digits (hds : Number.IsDigits ds)
    (h : Number.Width.bits64.greatest < Number.ofDigits ds) : Yields ds none := by
  obtain ⟨c, cs, rfl⟩ := List.exists_cons_of_ne_nil hds.1
  obtain ⟨hc, hcs⟩ := List.forall_mem_cons.mp hds.2
  have hholds : Number.Width.bits64.holds (Number.ofDigits (c :: cs)) = false := by
    rw [← Bool.not_eq_true, Number.Width.holds_iff]
    omega
  have hstep (rest : List Char) (hrest : Separate rest) :
      step c (cs ++ rest) = .error .malformedNumber := by
    rw [step_of_isDigit hc, number_append hrest, number_of_digits c hcs, hholds]
    rfl
  exact .of_error hstep

/-- Whether a text is an integer that is too large for a token. -/
def isTooLarge (cs : List Char) : Bool :=
  cs.all Char.isDigit && decide (Number.Width.bits64.greatest < Number.ofDigits cs)

theorem tells_numeral (h : Number.Numeral cs) : Tells cs (isTooLarge cs) false := by
  have hhead := h.head?_ne (c := '-') rfl
  cases h with
  | whole hds =>
    have hall : cs.all Char.isDigit = true := List.all_eq_true.mpr hds.2
    unfold isTooLarge
    rw [hall, Bool.true_and]
    by_cases hlarge : Number.Width.bits64.greatest < Number.ofDigits cs
    · rw [decide_eq_true hlarge]
      obtain ⟨c, cs, rfl⟩ := List.exists_cons_of_ne_nil hds.1
      have hopens : Opens (c :: cs) := opens_of_isDigit (hds.2 c (.head _)) cs
      exact .of_told ⟨none, yields_none_of_digits hds hlarge, rfl, nofun⟩ hopens hhead
    · rw [decide_eq_false hlarge]
      exact .of_spells (spells_digits hds.1 hds.2 (Int.not_lt.mp hlarge)) rfl rfl
  | @point ds fs hds hfs =>
    have hall : (ds ++ '.' :: fs).all Char.isDigit = false := by simp
    unfold isTooLarge
    rw [hall, Bool.false_and]
    exact .of_spells (spells_point hds hfs) rfl rfl
  | infinite => exact .of_spells (spells_name (x := "inf") (by decide)) rfl rfl
  | missing => exact .of_spells (spells_name (x := "NaN") (by decide)) rfl rfl

end Lexer
open Lexer

namespace Expression

/-- Whether a literal is written as an integer that is too large for a token. -/
def isOversized : Expression → Bool
  | float value => isTooLarge ((Number.literalText value).toList.dropWhile (· == '-'))
  | _ => false

/-- Whether a minus sign is written directly before an operand that begins with another. -/
def gluesSigns : Expression → Bool
  | binary .subtract _ second =>
    (second.asOperand second.text (BinaryOperator.subtract.precedence + 1) true).toList.head? ==
      some '-'
  | unary .negate operand =>
    (operand.asOperand operand.text unaryPrecedence true).toList.head? == some '-'
  | _ => false

/-- Whether an expression is no placeholder and no text with a single quote in it. -/
def isQuotable : Expression → Bool
  | placeholder _ => false
  | string value => !value.toList.contains '\''
  | _ => true

section
variable {e : Expression} {large glued : Bool}

theorem tells_asOperand (h : Tells e.text.toList large glued) (minimum : Nat)
    (wrapNegative : Bool) :
    Tells (e.asOperand e.text minimum wrapNegative).toList large glued :=
  asOperand_of_parenthesized (p := (Tells ·.toList large glued)) Tells.parenthesized h _ _

theorem tells_asBranch (h : Tells e.text.toList large glued) (minimum : Nat) :
    Tells (e.asBranch e.text minimum).toList large glued :=
  asBranch_of_parenthesized (p := (Tells ·.toList large glued)) Tells.parenthesized h _

theorem tells_asCondition (h : Tells e.text.toList large glued) :
    Tells (e.asCondition e.text).toList large glued :=
  asCondition_of_parenthesized (p := (Tells ·.toList large glued)) Tells.parenthesized h

end

theorem tells_int {n : Int} (h : (int n).Native) : Tells (int n).text.toList false false := by
  have hnatural : Tells (Nat.toDigits 10 n.natAbs) false false := by
    refine .of_spells (spells_natural ?_) rfl rfl
    have hleast := h.1
    have hgreatest := h.2
    omega
  rw [text, Number.toList_toString_int]
  split_ifs
  · have hhead : (Nat.toDigits 10 n.natAbs).head? ≠ some '-' := by
      obtain ⟨c, cs, hcs, hc⟩ := Number.exists_cons_toDigits n.natAbs
      rw [hcs]
      rintro ⟨⟩
      contradiction
    have hminus := hnatural.minus
    rwa [beq_eq_false_iff_ne.mpr hhead] at hminus
  · exact hnatural

theorem tells_float (x : Float) :
    Tells (float x).text.toList (float x).isOversized false := by
  obtain ⟨cs, hcs, htext⟩ := Number.numeral_literalText x
  have hnumeral := tells_numeral hcs
  have hhead := hcs.head?_ne (c := '-') rfl
  have hdrop : cs.dropWhile (· == '-') = cs := by
    cases cs with
    | nil => rfl
    | cons c cs => exact List.dropWhile_cons_of_neg (by simpa using hhead)
  rw [text, isOversized]
  rcases htext with htext | htext
  · rw [htext, hdrop]
    exact hnumeral
  · rw [htext, List.dropWhile_cons_of_pos rfl, hdrop]
    have hminus := hnumeral.minus
    rwa [beq_eq_false_iff_ne.mpr hhead] at hminus

mutual

/-- The text of an expression that was read tells whether a number in it is too large, and else
whether minus signs are glued together in it. -/
theorem tells_text {e : Expression} (h : ∀ d ∈ e.parts, d.Native ∧ d.isQuotable = true) :
    Tells e.text.toList (e.parts.any isOversized) (e.parts.any gluesSigns) := by
  cases e with
  | int n => exact tells_int (h _ (.head _)).1
  | float x =>
    have hfloat := tells_float x
    simpa [parts, gluesSigns] using hfloat
  | bool b => exact .of_spells (spells_bool b) rfl rfl
  | string value =>
    have hquote : '\'' ∉ value.toList := by simpa [isQuotable] using (h _ (.head _)).2
    rw [text]
    simp only [String.toList_append]
    exact .of_spells (spells_string hquote) rfl rfl
  | name x => exact .of_spells (spells_name (h _ (.head _)).1) rfl rfl
  | indefinite | raw => exact absurd (h _ (.head _)).1 id
  | placeholder => exact absurd (h _ (.head _)).2 Bool.false_ne_true
  | call f es =>
    obtain ⟨⟨hf, -⟩, hes⟩ := List.forall_mem_cons.mp h
    have hname : Tells f.toList false false := .of_spells (spells_name hf) rfl rfl
    have harguments := (told_texts hes).append (.punctuation (c := ')') rfl .nil)
      fun rest => .cons (by decide) rest
    rw [text, Script.parenthesized]
    simp only [String.toList_append, List.append_assoc]
    have hcall := hname.append (.punctuation (c := '(') rfl harguments)
      fun rest => .cons (by decide) rest
    simpa [parts, isOversized, gluesSigns] using hcall
  | index a b =>
    simp only [parts, List.forall_mem_cons, List.forall_mem_append] at h
    have hposition := (tells_text h.2.2).told.append (.punctuation (c := ']') rfl .nil)
      fun rest => .cons (by decide) rest
    have hindex := (tells_asOperand (tells_text h.2.1) atomPrecedence false).append
      (.punctuation (c := '[') rfl hposition) fun rest => .cons (by decide) rest
    rw [text]
    simp only [String.toList_append, List.append_assoc]
    simpa [parts, isOversized, gluesSigns] using hindex
  | binary op a b =>
    simp only [parts, List.forall_mem_cons, List.forall_mem_append] at h
    have hsecond :=
      (tells_asOperand (tells_text h.2.2) (op.precedence + 1) op.isAdditive).operator op
    have hbinary := (tells_asOperand (tells_text h.2.1) op.precedence false).append hsecond
      (separate_text op _)
    have hglues : (binary op a b).gluesSigns = (op == .subtract &&
        (b.asOperand b.text (op.precedence + 1) op.isAdditive).toList.head? == some '-') := by
      cases op <;> rfl
    rw [text_binary]
    simp only [String.toList_append, List.append_assoc]
    simp only [parts, List.any_cons, List.any_append, hglues]
    rw [Bool.or_left_comm] at hbinary
    exact hbinary
  | unary op a =>
    simp only [parts, List.forall_mem_cons] at h
    have hoperand := tells_asOperand (tells_text h.2) unaryPrecedence true
    rw [text, String.toList_append]
    cases op with
    | not =>
      exact .of_told (hoperand.sign (c := '!') rfl (by decide)) (.cons (d := '!') (by decide) _)
        (by simp [UnaryOperator.symbol])
    | negate => exact hoperand.minus
  | conditional c s u =>
    simp only [parts, List.forall_mem_cons, List.forall_mem_append] at h
    have hunsatisfied := (tells_asBranch (tells_text h.2.2) conditionalPrecedence).told
    have hbranches := (tells_asBranch (tells_text h.2.1.2) (conditionalPrecedence + 1)).append
      (.punctuation (c := ':') rfl hunsatisfied) fun rest => .cons (by decide) _
    have hconditional := (tells_asCondition (tells_text h.2.1.1)).append
      (hbranches.sign (c := '?') rfl (by decide)) fun rest => .cons (by decide) _
    rw [text]
    simp only [String.toList_append, List.append_assoc]
    simpa [parts, isOversized, gluesSigns] using hconditional
  | guarded c s =>
    simp only [parts, List.forall_mem_cons, List.forall_mem_append] at h
    have hbranch := tells_asBranch (tells_text h.2.2) (conditionalPrecedence + 1)
    have hguarded := (tells_asCondition (tells_text h.2.1)).append
      (hbranch.sign (c := '?') rfl (by decide)) fun rest => .cons (by decide) _
    rw [text]
    simp only [String.toList_append, List.append_assoc]
    simpa [parts, isOversized, gluesSigns] using hguarded

theorem told_texts {es : List Expression}
    (h : ∀ d ∈ partsOfAll es, d.Native ∧ d.isQuotable = true) :
    Told (",".intercalate (texts es)).toList ((partsOfAll es).any isOversized)
      ((partsOfAll es).any gluesSigns) := by
  cases es with
  | nil => exact .nil
  | cons e es =>
    simp only [partsOfAll, List.forall_mem_append] at h
    have he := (tells_text h.1).told
    cases es with
    | nil => simpa [texts, partsOfAll] using he
    | cons e' es =>
      have hcomma := he.append (.punctuation (c := ',') rfl (told_texts h.2))
        fun rest => .cons (by decide) _
      rw [texts, texts, String.intercalate_cons_cons, ← texts, partsOfAll]
      simp only [String.toList_append, List.append_assoc, List.any_append]
      exact hcomma

end

/-- The text of an expression that was read is read again as tokens exactly when no number in it is
too large. It has no comments then and no two plus signs as one token, and two minus signs as one
token exactly where an operand that begins with a minus stands behind one. -/
theorem tokensOf_text {source : String} {e : Expression} (h : ofText source = .ok e)
    (hquotable : e.parts.all isQuotable = true) :
    ((∃ ts, tokensOf e.text = .ok ts) ↔ e.parts.any isOversized = false) ∧
      ∀ ts, tokensOf e.text = .ok ts → FreeOfComments e.text ∧ .increment ∉ ts ∧
        (.decrement ∈ ts ↔ e.parts.any gluesSigns = true) := by
  have hnative := native_of_ofText h
  rw [List.all_eq_true] at hquotable
  obtain ⟨o, ho, hlarge, hglued⟩ :=
    (tells_text fun d hd => ⟨hnative d hd, hquotable d hd⟩).told
  have htokens (ts : List Token) : tokensOf e.text = .ok ts ↔ o = some ts := by
    rw [tokensOf_eq_ok_iff, ho.reads_iff]
  simp only [htokens]
  refine ⟨?_, fun ts hts => ⟨⟨ts, ho.reads_iff.mpr hts⟩, hglued ts hts⟩⟩
  rw [← hlarge, Option.isNone_eq_false_iff, Option.isSome_iff_exists]

example : isOversized (.float 1e19) = true ∧ isOversized (.float 1e18) = false := by decide +kernel

/-- A subtrahend with a minus sign of its own. -/
def negatedSubtrahend : Expression :=
  .binary .subtract (.name "a") (.unary .negate (.name "b"))

theorem ofText_negatedSubtrahend : ofText "a- -b" = .ok negatedSubtrahend := by
  have hreads : Lexer.Reads true "a- -b".toList
      [.identifier "a", .operator .subtract, .operator .subtract, .identifier "b"] [] :=
    .token rfl (.token rfl (.blank rfl (.token rfl (.token rfl .done))))
  have hderives : Derives (.expression false)
      [.identifier "a", .operator .subtract, .operator .subtract, .identifier "b"]
      negatedSubtrahend :=
    .condition (.operator (by decide) (.operand (.unary (.postfixed (.name "a"))))
      (.operand (.negate (.unary (.postfixed (.name "b"))))))
  exact ofText_eq_ok_iff.mpr ⟨false, _, hreads, hderives⟩

theorem tokensOf_text_negatedSubtrahend :
    ofText "a- -b" = .ok negatedSubtrahend ∧ negatedSubtrahend.parts.all isQuotable = true ∧
      ∃ ts, tokensOf negatedSubtrahend.text = .ok ts ∧ .increment ∉ ts ∧ .decrement ∈ ts := by
  have hquotable : negatedSubtrahend.parts.all isQuotable = true := by decide
  obtain ⟨haccepted, htokens⟩ := tokensOf_text ofText_negatedSubtrahend hquotable
  obtain ⟨ts, hts⟩ := haccepted.mpr (by decide)
  obtain ⟨-, hincrement, hdecrement⟩ := htokens ts hts
  exact ⟨ofText_negatedSubtrahend, hquotable, ts, hts, hincrement, hdecrement.mpr (by decide)⟩

/-- The minus sign of an operator may be one token with that of its operand. -/
theorem signs_not_always_apart :
    ¬ ∀ source e, ofText source = .ok e → e.parts.all isQuotable = true →
      ∃ ts, tokensOf e.text = .ok ts ∧ .increment ∉ ts ∧ .decrement ∉ ts ∧
        FreeOfComments e.text := by
  intro h
  obtain ⟨ts, hts, -, hdecrement, -⟩ := h _ _ ofText_negatedSubtrahend (by decide)
  have htext : negatedSubtrahend.text = "a--b" := by decide
  have hreads : Reads true "a--b".toList [.identifier "a", .decrement, .identifier "b"] [] :=
    .token rfl (.token rfl (.token rfl .done))
  rw [htext, tokensOf_eq_ok_iff] at hts
  obtain rfl := hts.unique hreads
  exact hdecrement (by decide)

end Expression
end Hologram.Script
