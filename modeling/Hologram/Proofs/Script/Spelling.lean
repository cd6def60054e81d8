import Hologram.Proofs.Script.Derivation
import Hologram.Script.Emission
import Mathlib.Data.List.TakeWhile

/-! The texts of single tokens, and how texts of tokens are put side by side. -/
namespace Hologram.Script
namespace Lexer

/-- A text that is read as some tokens, whatever comes after it that does not go on with it. -/
def Spells (cs : List Char) (ts : List Token) : Prop :=
  ∀ rest, Separate rest → Reads false (cs ++ rest) ts rest

/-- A text before which every sign ends, apart from a minus before a minus. -/
def EndsSigns (cs : List Char) : Prop :=
  ∀ c d, cs.head? = some d → joins c d = true → c = '-' ∧ d = '-'

def isName (x : String) : Bool :=
  match x.toList with
  | c :: cs => isNameStart c && cs.all isNamePart && Token.ofWord (c :: cs) == .identifier x
  | [] => false

theorem Separate.cons {c : Char} (h : isNamePart c = false) (cs : List Char) :
    Separate (c :: cs) := by
  rintro d ⟨⟩
  exact h

theorem separate_nil : Separate [] := by
  rintro d ⟨⟩

theorem isNameStart_of_isDigit {c : Char} (h : c.isDigit = true) : isNameStart c = false := by
  have hc : 48 ≤ c.toNat ∧ c.toNat ≤ 57 := Char.isDigit_iff_toNat.mp h
  have halpha : c.isAlpha = false := by
    change (decide (65 ≤ c.val ∧ c.val ≤ 90) || decide (97 ≤ c.val) && decide (c.val ≤ 122)) = false
    simp only [UInt32.le_iff_toNat_le, Char.toNat_val]
    simp
    omega
  have hline : c ≠ '_' := by
    rintro rfl
    contradiction
  simp [isNameStart, Text.isAlphabetic_ascii (show c.toNat < 0x80 by omega), halpha, hline]

/-- The characters that begin a name begin nothing else. -/
theorem step_of_isNameStart {c : Char} (h : isNameStart c = true) (cs : List Char) :
    step c cs = .ok (some (Token.ofWord (c :: cs.takeWhile isNamePart)),
      (cs.takeWhile isNamePart).length) := by
  have hne (d : Char) (hd : isNameStart d = false) : c ≠ d := by
    rintro rfl
    rw [h] at hd
    contradiction
  have hpunctuation := punctuation?_eq_none h (by decide)
  have hspace := isSpace_eq_false h (by decide)
  have hdigit : ¬ c.isDigit = true := by
    intro hdigit
    rw [isNameStart_of_isDigit hdigit] at h
    contradiction
  unfold step
  rw [hpunctuation]
  simp [hspace, hdigit, h, hne '"' (by decide), hne '\'' (by decide),
    hne '.' (by decide)]

theorem step_of_isDigit {c : Char} (h : c.isDigit = true) (cs : List Char) :
    step c cs = number c cs := by
  have hne (d : Char) (hd : d.isDigit = false) : c ≠ d := by
    rintro rfl
    rw [h] at hd
    contradiction
  have hpunctuation := punctuation?_eq_none h (by decide)
  have hspace := isSpace_eq_false h (by decide)
  unfold step
  rw [hpunctuation]
  simp [hspace, h, hne '"' (by decide), hne '\'' (by decide)]

/-- A token that a step reads up to the end of a text is spelled by the text. -/
theorem spells_of_step {c : Char} {cs : List Char} {t : Token}
    (h : step c cs = .ok (some t, cs.length)) (ht : t.isSign = false) : Spells (c :: cs) [t] := by
  intro rest hrest
  refine .token (step_append h hrest (by simp [ht])) ?_
  change Reads false ((cs ++ rest).drop cs.length) [] rest
  rw [List.drop_left]
  exact .done

theorem spells_word {c : Char} {cs : List Char} (hc : isNameStart c = true)
    (hcs : cs.all isNamePart = true) (hsign : (Token.ofWord (c :: cs)).isSign = false) :
    Spells (c :: cs) [Token.ofWord (c :: cs)] := by
  refine spells_of_step ?_ hsign
  rw [step_of_isNameStart hc, List.takeWhile_eq_self_iff.mpr (List.all_eq_true.mp hcs)]

theorem spells_name {x : String} (h : isName x = true) : Spells x.toList [.identifier x] := by
  unfold isName at h
  split at h
  · rename_i c cs hx
    simp only [Bool.and_eq_true, beq_iff_eq] at h
    obtain ⟨⟨hc, hcs⟩, hword⟩ := h
    rw [hx, ← hword]
    exact spells_word hc hcs (by rw [hword]; rfl)
  · contradiction

theorem spells_bool (b : Bool) : Spells (Constant.boolText b).toList [.bool b] := by
  cases b with
  | false => exact spells_of_step (c := 'f') (by decide) rfl
  | true => exact spells_of_step (c := 't') (by decide) rfl

theorem spells_string {text : List Char} (h : '\'' ∉ text) :
    Spells ('\'' :: (text ++ ['\''])) [.string (String.ofList text)] := by
  refine spells_of_step ?_ rfl
  change quotation '\'' (text ++ ['\'']) = _
  rw [quotation_of_not_mem h, List.length_append]
  rfl

theorem reads_punctuation {comments : Bool} {c : Char} {t : Token} {ts : List Token}
    {cs rest : List Char} (hc : punctuation? c = some t) (h : Reads comments cs ts rest) :
    Reads comments (c :: cs) (t :: ts) rest := by
  have hstep : step c cs = .ok (some t, 0) := by
    unfold step
    rw [hc]
  exact .token hstep h

/-- Digits alone are an integer, if it fits. -/
theorem number_of_digits (c : Char) {cs : List Char} (hcs : ∀ d ∈ cs, d.isDigit = true) :
    number c cs = if Number.Width.bits64.holds (Number.ofDigits (c :: cs)) then
        .ok (some (.int (Number.ofDigits (c :: cs))), cs.length)
      else .error .malformedNumber := by
  have hfraction : fractionOf cs = [] := by
    unfold fractionOf
    rw [List.dropWhile_eq_nil_iff.mpr hcs]
  rw [number_eq, hfraction, List.takeWhile_eq_self_iff.mpr hcs]
  rfl

theorem spells_digits {digits : List Char} (hne : digits ≠ [])
    (hdigits : ∀ d ∈ digits, d.isDigit = true)
    (h : (Number.ofDigits digits : Int) ≤ Number.Width.bits64.greatest) :
    Spells digits [.int (Number.ofDigits digits)] := by
  obtain ⟨c, cs, rfl⟩ := List.exists_cons_of_ne_nil hne
  rw [List.forall_mem_cons] at hdigits
  have hholds : Number.Width.bits64.holds (Number.ofDigits (c :: cs)) = true := by
    refine Number.Width.holds_iff.mpr ⟨?_, h⟩
    exact Int.le_trans (by decide) (Int.natCast_nonneg _)
  refine spells_of_step ?_ rfl
  rw [step_of_isDigit hdigits.1, number_of_digits c hdigits.2, if_pos hholds]

theorem spells_natural {n : Nat} (h : (n : Int) ≤ Number.Width.bits64.greatest) :
    Spells (Nat.toDigits 10 n) [.int n] := by
  have hvalue : Number.ofDigits (Nat.toDigits 10 n) = n := Nat.ofDigitChars_ten_toDigits
  have hspells : Spells (Nat.toDigits 10 n) [.int (Number.ofDigits (Nat.toDigits 10 n))] :=
    spells_digits Nat.toDigits_ne_nil
      (fun d hd => Nat.isDigit_of_mem_toDigits (by decide) (by decide) hd) (by rwa [hvalue])
  rwa [hvalue] at hspells

theorem step_of_mem {c : Char} (h : c ∈ signs) (cs : List Char) :
    step c cs = sign c cs := by
  simp only [signs, List.mem_cons, List.not_mem_nil, or_false] at h
  rcases h with rfl | rfl | rfl | rfl | rfl | rfl | rfl | rfl | rfl | rfl | rfl | rfl <;> rfl

/-- A sign of one character is read where nothing goes on with it. -/
theorem reads_sign {comments : Bool} {c : Char} {t : Token} {ts : List Token}
    {cs rest : List Char} (hc : singleSign? c = some t)
    (hcs : ∀ d, cs.head? = some d → joins c d = false) (h : Reads comments cs ts rest) :
    Reads comments (c :: cs) (t :: ts) rest := by
  have hmem : c ∈ signs := by
    unfold singleSign? at hc
    split at hc <;> first | contradiction | simp [signs]
  have hstep : step c cs = .ok (some t, 0) := by
    rw [step_of_mem hmem, sign_of_not_joins hcs, hc]
  exact .token hstep h

theorem EndsSigns.joins_eq_false {c d : Char} {cs : List Char} (h : EndsSigns cs) (hc : c ≠ '-')
    (hd : cs.head? = some d) : joins c d = false := by
  cases hj : joins c d with
  | false => rfl
  | true => exact absurd (h c d hd hj).1 hc

/-- An operator is read where no sign goes on with its own. -/
theorem reads_operator (op : BinaryOperator) {cs rest : List Char} {ts : List Token}
    (hcs : EndsSigns cs) (hminus : op = .subtract → cs.head? ≠ some '-')
    (h : Reads false cs ts rest) :
    Reads false (op.symbol.toList ++ cs) (.operator op :: ts) rest := by
  have hdouble {c d : Char} {t : Token} (hstep : step c (d :: cs) = .ok (some t, 1)) :
      Reads false (c :: d :: cs) (t :: ts) rest := .token hstep h
  cases op with
  | coalesce =>
    refine hdouble (show sign '?' ('?' :: cs) = _ from ?_)
    cases cs with
    | nil => rfl
    | cons e es =>
      have he : e ≠ '=' := by
        rintro rfl
        exact absurd (hcs '=' '=' rfl rfl).1 (by decide)
      unfold sign
      simp [he]
  | or | and | equal | notEqual | lessEqual | greaterEqual => exact hdouble rfl
  | less | greater | add | multiply | divide | modulo =>
    exact reads_sign rfl (fun _ => hcs.joins_eq_false (by decide)) h
  | subtract =>
    refine reads_sign (c := '-') rfl (fun d hd => ?_) h
    cases hj : joins '-' d with
    | false => rfl
    | true =>
      obtain rfl := (hcs '-' d hd hj).2
      exact absurd hd (hminus rfl)

/-- The characters that go on with a sign, or begin a comment after a slash, apart from a minus. -/
def joined : List Char :=
  ['/', '*', '+', '?', '&', '|', '=']

theorem mem_of_joins {c d : Char} (h : joins c d = true) :
    (c = '-' ∧ d = '-') ∨ d ∈ joined := by
  unfold joins at h
  split at h <;> first | contradiction | simp [joined]

theorem EndsSigns.of_not_mem {d : Char} (h : d ∉ joined) (cs : List Char) :
    EndsSigns (d :: cs) := by
  rintro c e ⟨⟩ hj
  exact (mem_of_joins hj).resolve_right h

/-- A sign that may begin an expression is no sign that goes on with another. -/
theorem opensOperand_of_sign {c : Char} {cs : List Char} {t : Token} {k : Nat}
    (h : sign c cs = .ok (some t, k)) (hc : c ∈ joined) : t.opensOperand = false := by
  unfold sign at h
  split at h <;> first | (cases h; first | rfl | (simp [joined] at hc)) | skip
  all_goals first | cases h | (split at h <;> cases h)

/-- Before a text that begins as an expression does, every sign ends. -/
theorem endsSigns_of_reads {t : Token} {cs rest : List Char} {ts : List Token}
    (h : Reads false cs (t :: ts) rest) (ht : t.opensOperand = true) : EndsSigns cs := by
  intro c d hd hj
  rcases mem_of_joins hj with hminus | hmem
  · exact hminus
  cases h with
  | blank hspace =>
    cases hd
    have hnone : joined.any isSpace = false := by decide
    exact absurd hspace (List.any_eq_false.mp hnone d hmem)
  | comment => contradiction
  | token hs =>
    cases hd
    have hsign : d ∈ signs := by
      simp only [joined, signs, List.mem_cons, List.not_mem_nil, or_false] at hmem ⊢
      tauto
    rw [step_of_mem hsign] at hs
    rw [opensOperand_of_sign hs hmem] at ht
    contradiction

end Lexer
end Hologram.Script
