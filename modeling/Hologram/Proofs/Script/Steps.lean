import Hologram.Proofs.Script.Lexing

/-! What one step of reading can be, and that it does not depend on what comes after a word, a
number or a sign that has ended. -/
namespace Hologram.Script
namespace Lexer

/-- Every way in which a step reads something at the front of a text. -/
inductive Shape (c : Char) (cs : List Char) : Option Token → Nat → Prop where
  | punctuation {t : Token} (h : punctuation? c = some t) : Shape c cs (some t) 0
  | blank (h : isSpace c = true) : Shape c cs none (cs.takeWhile isSpace).length
  | quotation {text after : List Char} (hc : c = '"' ∨ c = '\'') (hcs : cs = text ++ c :: after)
      (htext : c ∉ text) : Shape c cs (some (.string (String.ofList text))) (text.length + 1)
  | number {token? : Option Token} {k : Nat} (hc : c.isDigit = true)
      (h : number c cs = .ok (token?, k)) : Shape c cs token? k
  | fraction (hc : c = '.') (h : cs.takeWhile Char.isDigit ≠ []) :
      Shape c cs (some (.float (Number.ofParts [] (cs.takeWhile Char.isDigit))))
        (cs.takeWhile Char.isDigit).length
  | word (h : isNameStart c = true) :
      Shape c cs (some (Token.ofWord (c :: cs.takeWhile isNamePart)))
        (cs.takeWhile isNamePart).length
  | sign {token? : Option Token} {k : Nat} (h : sign c cs = .ok (token?, k)) : Shape c cs token? k

theorem quotation_eq_ok {quote : Char} {cs : List Char} {token? : Option Token} {k : Nat}
    (h : quotation quote cs = .ok (token?, k)) : ∃ text after, cs = text ++ quote :: after ∧
      quote ∉ text ∧ token? = some (.string (String.ofList text)) ∧ k = text.length + 1 := by
  unfold quotation at h
  dsimp only at h
  split_ifs at h with hlt
  · cases h
    have hne : cs.dropWhile (· != quote) ≠ [] := by
      intro hnil
      have hlength := congrArg List.length
        (List.takeWhile_append_dropWhile (p := (· != quote)) (l := cs))
      rw [hnil, List.append_nil] at hlength
      omega
    obtain ⟨d, after, hd⟩ := List.exists_cons_of_ne_nil hne
    have hquote : d = quote := by
      have hhead := List.head?_dropWhile_not (· != quote) cs
      rw [hd] at hhead
      simpa using hhead
    subst hquote
    refine ⟨cs.takeWhile (· != d), after, ?_, fun hmem => ?_, rfl, rfl⟩
    · rw [← hd, List.takeWhile_append_dropWhile]
    · have hne := List.all_eq_true.mp List.all_takeWhile d hmem
      simp at hne

/-- A step is of one of the shapes. -/
theorem shape_of_step {c : Char} {cs : List Char} {token? : Option Token} {k : Nat}
    (h : step c cs = .ok (token?, k)) : Shape c cs token? k := by
  unfold step at h
  split at h
  case h_1 t ht =>
    cases h
    exact .punctuation ht
  case h_2 =>
    split_ifs at h with hspace hquote hdigit hpoint hname
    · cases h
      exact .blank hspace
    · obtain ⟨text, after, hcs, htext, rfl, rfl⟩ := quotation_eq_ok h
      exact .quotation hquote hcs htext
    · exact .number hdigit h
    · dsimp only at h
      split_ifs at h with hempty
      cases h
      exact .fraction hpoint (by simpa using hempty)
    · cases h
      exact .word hname
    · exact .sign h

/-- Characters that do not go on with a word or a number before them. -/
def Separate (rest : List Char) : Prop :=
  ∀ d, rest.head? = some d → isNamePart d = false

theorem isNamePart_of_isDigit {d : Char} (h : d.isDigit = true) : isNamePart d = true := by
  simp [isNamePart, h]

section
variable {p : Char → Bool} {rest : List Char}

theorem Separate.head_not (hp : ∀ d, p d = true → isNamePart d = true) {d : Char}
    (h : Separate (d :: rest)) : ¬ p d = true := fun hd => by
  simpa [hp d hd] using h d rfl

theorem takeWhile_append_of_separate (hp : ∀ d, p d = true → isNamePart d = true)
    (h : Separate rest) (cs : List Char) : (cs ++ rest).takeWhile p = cs.takeWhile p := by
  induction cs with
  | nil =>
    cases rest with
    | nil => rfl
    | cons d rest =>
      rw [List.nil_append, List.takeWhile_cons_of_neg (h.head_not hp)]
      rfl
  | cons c cs ih =>
    by_cases hc : p c = true
    · rw [List.cons_append, List.takeWhile_cons_of_pos hc, List.takeWhile_cons_of_pos hc, ih]
    · rw [List.cons_append, List.takeWhile_cons_of_neg hc, List.takeWhile_cons_of_neg hc]

theorem dropWhile_append_of_separate (hp : ∀ d, p d = true → isNamePart d = true)
    (h : Separate rest) (cs : List Char) :
    (cs ++ rest).dropWhile p = cs.dropWhile p ++ rest := by
  induction cs with
  | nil =>
    cases rest with
    | nil => rfl
    | cons d rest =>
      rw [List.nil_append, List.dropWhile_cons_of_neg (h.head_not hp)]
      rfl
  | cons c cs ih =>
    by_cases hc : p c = true
    · rw [List.cons_append, List.dropWhile_cons_of_pos hc, List.dropWhile_cons_of_pos hc, ih]
    · rw [List.cons_append, List.dropWhile_cons_of_neg hc, List.dropWhile_cons_of_neg hc]
      rfl

end

/-- The digits after a point, if a point follows the digits of a number. -/
def fractionOf (cs : List Char) : List Char :=
  match cs.dropWhile Char.isDigit with
  | '.' :: r => r.takeWhile Char.isDigit
  | _ => []

theorem number_eq (c : Char) (cs : List Char) :
    number c cs = if (fractionOf cs).isEmpty then
        if Number.Width.bits64.holds (Number.ofDigits (c :: cs.takeWhile Char.isDigit)) then
          .ok (some (.int (Number.ofDigits (c :: cs.takeWhile Char.isDigit))),
            (cs.takeWhile Char.isDigit).length)
        else .error .malformedNumber
      else
        .ok (some (.float (Number.ofParts (c :: cs.takeWhile Char.isDigit) (fractionOf cs))),
          (cs.takeWhile Char.isDigit).length + 1 + (fractionOf cs).length) :=
  rfl

theorem fractionOf_append {rest : List Char} (h : Separate rest) (cs : List Char) :
    fractionOf (cs ++ rest) = fractionOf cs := by
  unfold fractionOf
  rw [dropWhile_append_of_separate (fun _ => isNamePart_of_isDigit) h]
  cases hcs : cs.dropWhile Char.isDigit with
  | nil =>
    cases rest with
    | nil => rfl
    | cons d rest =>
      have hd : d ≠ '.' := by
        rintro rfl
        exact absurd (h '.' rfl) (by decide)
      rw [List.nil_append]
      split
      · exact absurd (List.cons.inj ‹_›).1 hd
      · rfl
  | cons d ds =>
    rw [List.cons_append]
    by_cases hd : d = '.'
    · subst hd
      exact takeWhile_append_of_separate (fun _ => isNamePart_of_isDigit) h ds
    · split
      · exact absurd (List.cons.inj ‹_›).1 hd
      · split
        · exact absurd (List.cons.inj ‹_›).1 hd
        · rfl

theorem number_append {rest : List Char} (h : Separate rest) (c : Char) (cs : List Char) :
    number c (cs ++ rest) = number c cs := by
  rw [number_eq, number_eq, fractionOf_append h,
    takeWhile_append_of_separate (fun _ => isNamePart_of_isDigit) h]

/-- Whether two characters belong to one sign, or begin a comment. -/
def joins : Char → Char → Bool
  | '/', '/' | '/', '*' | '+', '+' | '-', '-' | '?', '?' | '&', '&' | '|', '|' => true
  | '=', '=' | '!', '=' | '<', '=' | '>', '=' => true
  | '+', '=' | '-', '=' | '*', '=' | '/', '=' => true
  | _, _ => false

/-- The token that a sign is on its own. -/
def singleSign? : Char → Option Token
  | '=' => some .assign
  | '?' => some .question
  | '+' => some (.operator .add)
  | '-' => some (.operator .subtract)
  | '*' => some (.operator .multiply)
  | '/' => some (.operator .divide)
  | '%' => some (.operator .modulo)
  | '<' => some (.operator .less)
  | '>' => some (.operator .greater)
  | '!' => some .bang
  | _ => none

/-- A sign stands on its own when the character after it does not join it. -/
theorem sign_of_not_joins {c : Char} {cs : List Char}
    (h : ∀ d, cs.head? = some d → joins c d = false) :
    sign c cs = match singleSign? c with
      | some t => .ok (some t, 0)
      | none => .error (.unexpectedCharacter c) := by
  unfold sign
  split <;> first | rfl | exact absurd (h _ rfl) (by decide) | skip
  unfold singleSign?
  split <;> first | rfl | (exfalso; simp_all)

/-- Two characters that join, and do not begin a fallback or a comment, settle what is read. -/
theorem sign_of_joins {c d : Char} (h : joins c d = true) (hq : ¬ (c = '?' ∧ d = '?'))
    (hc : c = '/' → d ≠ '/' ∧ d ≠ '*') (cs : List Char) : sign c (d :: cs) = sign c [d] := by
  unfold joins at h
  split at h <;> first | rfl | contradiction

/-- What a sign says is settled by the characters directly after it. -/
theorem sign_append {c d : Char} {cs : List Char} (rest : List Char)
    (hq : c = '?' → d = '?' → cs ≠ []) (hc : c = '/' → d ≠ '/' ∧ d ≠ '*') :
    sign c (d :: cs ++ rest) = sign c (d :: cs) := by
  rw [List.cons_append]
  by_cases hd : c = '?' ∧ d = '?'
  · obtain ⟨rfl, rfl⟩ := hd
    obtain ⟨e, es, rfl⟩ := List.exists_cons_of_ne_nil (hq rfl rfl)
    by_cases he : e = '='
    · subst he
      rfl
    · unfold sign
      simp [he]
  · cases hj : joins c d with
    | true => rw [sign_of_joins hj hd hc (cs ++ rest), sign_of_joins hj hd hc cs]
    | false =>
      have hhead (xs : List Char) (e : Char) (he : (d :: xs).head? = some e) :
          joins c e = false := by
        cases he
        exact hj
      rw [sign_of_not_joins (hhead (cs ++ rest)), sign_of_not_joins (hhead cs)]

end Lexer

namespace Token

/-- Whether a token is a sign, which reads on as far as it can. -/
def isSign : Token → Bool
  | question | operator _ | bang | compoundAssign _ | increment | decrement | assign => true
  | _ => false

def ofWords (word : List Char) : List Token :=
  [ifWord, elseWord, forWord, letWord, returnWord, bool true, bool false,
    identifier (String.ofList word)]

theorem ofWord_mem (word : List Char) : ofWord word ∈ ofWords word := by
  unfold ofWord
  split <;> simp [ofWords]

end Token

namespace Lexer

def signs : List Char :=
  ['=', '?', '+', '-', '*', '/', '%', '<', '>', '!', '&', '|']

/-- A sign reads characters of signs, and only a question mark is read as one. -/
theorem sign_of_ok {c : Char} {cs : List Char} {t : Token} {k : Nat}
    (h : sign c cs = .ok (some t, k)) : t.isSign = true ∧ k ≤ cs.length ∧
      (∀ d ∈ c :: cs.take k, d ∈ signs) ∧ (t = .question → c = '?') := by
  unfold sign at h
  split at h
  all_goals first
    | (cases h; refine ⟨rfl, by simp, by simp [signs], ?_⟩; first | exact fun _ => rfl | nofun)
    | cases h
    | (split at h <;> cases h)

theorem sign_comment_ne {t : Token} {k : Nat} (cs : List Char) :
    sign '/' ('*' :: cs) ≠ .ok (some t, k) := by
  cases hlength : commentLength? cs <;> simp [sign, hlength]

/-- Only a slash begins a comment. -/
theorem eq_slash_of_sign {c : Char} {cs : List Char} {k : Nat}
    (h : sign c cs = .ok (none, k)) : c = '/' := by
  unfold sign at h
  split at h <;> first | rfl | cases h

theorem mem_signs {c : Char} {cs : List Char} {token? : Option Token} {k : Nat}
    (h : sign c cs = .ok (token?, k)) : c ∈ signs := by
  cases token? with
  | none =>
    rw [eq_slash_of_sign h]
    decide
  | some t => exact (sign_of_ok h).2.2.1 c (.head _)

/-- Characters of a kind that no sign is of begin no sign. -/
theorem sign_ne_ok {p : Char → Bool} {c : Char} (hc : p c = true) (hp : signs.any p = false)
    (cs : List Char) (token? : Option Token) (k : Nat) : sign c cs ≠ .ok (token?, k) := by
  intro h
  exact List.any_eq_false.mp hp c (mem_signs h) hc

theorem take_length_of_append {first second cs : List Char} (h : first ++ second = cs) :
    cs.take first.length = first := by
  rw [← h]
  exact List.take_left

theorem take_takeWhile_length (p : Char → Bool) (cs : List Char) :
    cs.take (cs.takeWhile p).length = cs.takeWhile p :=
  take_length_of_append List.takeWhile_append_dropWhile

theorem length_takeWhile_le (p : Char → Bool) (cs : List Char) :
    (cs.takeWhile p).length ≤ cs.length :=
  (List.takeWhile_prefix p).length_le

/-- A number reads digits, of which there are some after its point if it has one. -/
theorem number_of_ok {c : Char} {cs : List Char} {token? : Option Token} {k : Nat}
    (h : number c cs = .ok (token?, k)) :
    k ≤ cs.length ∧ (∀ d ∈ cs.take k, d.isDigit = true ∨ d = '.') ∧
      ((∃ n : Nat, token? = some (.int n) ∧ (n : Int) ≤ Number.Width.bits64.greatest) ∨
        ∃ x, token? = some (.float x)) := by
  rw [number_eq] at h
  split_ifs at h with hfraction hholds
  · cases h
    refine ⟨length_takeWhile_le _ cs, fun d hd => .inl ?_,
      .inl ⟨_, rfl, (Number.Width.holds_iff.mp hholds).2⟩⟩
    rw [take_takeWhile_length] at hd
    exact List.all_eq_true.mp List.all_takeWhile d hd
  · cases h
    obtain ⟨r, hr⟩ : ∃ r, cs.dropWhile Char.isDigit = '.' :: r := by
      unfold fractionOf at hfraction
      split at hfraction
      · exact ⟨_, ‹_›⟩
      · simp at hfraction
    have hfractionOf : fractionOf cs = r.takeWhile Char.isDigit := by
      unfold fractionOf
      rw [hr]
      rfl
    have hcs : cs.takeWhile Char.isDigit ++ '.' :: r.takeWhile Char.isDigit ++
        r.dropWhile Char.isDigit = cs := by
      rw [List.append_assoc, List.cons_append, List.takeWhile_append_dropWhile, ← hr,
        List.takeWhile_append_dropWhile]
    have hk : (cs.takeWhile Char.isDigit).length + 1 + (fractionOf cs).length =
        (cs.takeWhile Char.isDigit ++ '.' :: r.takeWhile Char.isDigit).length := by
      rw [hfractionOf, List.length_append, List.length_cons]
      omega
    have htake : cs.take ((cs.takeWhile Char.isDigit).length + 1 + (fractionOf cs).length) =
        cs.takeWhile Char.isDigit ++ '.' :: r.takeWhile Char.isDigit := by
      rw [hk]
      exact take_length_of_append hcs
    refine ⟨?_, fun d hd => ?_, .inr ⟨_, rfl⟩⟩
    · rw [hk]
      exact (List.IsPrefix.length_le ⟨_, hcs⟩)
    · rw [htake, List.mem_append, List.mem_cons] at hd
      rcases hd with hd | rfl | hd
      · exact .inl (List.all_eq_true.mp List.all_takeWhile d hd)
      · exact .inr rfl
      · exact .inl (List.all_eq_true.mp List.all_takeWhile d hd)

theorem quotation_of_not_mem {quote : Char} {text : List Char} (h : quote ∉ text)
    (after : List Char) : quotation quote (text ++ quote :: after) =
      .ok (some (.string (String.ofList text)), text.length + 1) := by
  have htext : (text ++ quote :: after).takeWhile (· != quote) = text := by
    rw [List.takeWhile_append_of_pos, List.takeWhile_cons_of_neg (by simp), List.append_nil]
    intro d hd
    simpa using fun hdq : d = quote => h (hdq ▸ hd)
  unfold quotation
  rw [htext]
  simp

/-- What a step reads goes on to be read when characters follow that do not join it. -/
theorem step_append {c : Char} {cs rest : List Char} {t : Token} {k : Nat}
    (h : step c cs = .ok (some t, k)) (hrest : Separate rest)
    (ht : t.isSign = true → cs.drop k ≠ []) : step c (cs ++ rest) = .ok (some t, k) := by
  unfold step at h ⊢
  split at h
  case h_1 token hp => exact h
  case h_2 hp =>
    split_ifs at h ⊢ with hspace hquote hdigit hpoint hname
    · cases h
    · obtain ⟨text, after, rfl, htext, ht, hk⟩ := quotation_eq_ok h
      rw [List.append_assoc, List.cons_append, quotation_of_not_mem htext, ht, hk]
    · rw [number_append hrest]
      exact h
    · rw [takeWhile_append_of_separate (fun _ => isNamePart_of_isDigit) hrest]
      exact h
    · rw [takeWhile_append_of_separate (fun _ hd => hd) hrest]
      exact h
    · have hsign := (sign_of_ok h).1
      have hdrop := ht hsign
      cases cs with
      | nil => simp at hdrop
      | cons d cs =>
        rw [sign_append rest, h]
        · rintro rfl rfl rfl
          cases h
          simp at hdrop
        · rintro rfl
          constructor
          · rintro rfl
            cases h
          · rintro rfl
            exact sign_comment_ne cs h

/-- A step reads no more than there is. -/
theorem length_of_step {c : Char} {cs : List Char} {t : Token} {k : Nat}
    (h : step c cs = .ok (some t, k)) : k ≤ cs.length := by
  generalize ht : some t = token? at h
  cases shape_of_step h with
  | punctuation => exact Nat.zero_le _
  | blank => contradiction
  | @quotation text after _ hcs =>
    rw [hcs, List.length_append, List.length_cons]
    omega
  | number _ h => exact (number_of_ok h).1
  | fraction => exact length_takeWhile_le _ cs
  | word => exact length_takeWhile_le _ cs
  | sign h =>
    subst ht
    exact (sign_of_ok h).2.1

/-- A text that is read to its end, and does not end in a sign, is read alike with more after it. -/
theorem Reads.extend {cs rest : List Char} {ts : List Token} (h : Reads false cs ts [])
    (hrest : Separate rest) (hlast : ∀ t, ts.getLast? = some t → t.isSign = false) :
    Reads false (cs ++ rest) ts rest := by
  generalize hstop : ([] : List Char) = stop at h
  induction h with
  | done =>
    rw [← hstop]
    exact .done
  | blank hc _ ih => exact .blank hc (ih hlast hstop)
  | comment hcomments => contradiction
  | @token c cs stop ts t k hs h ih =>
    subst hstop
    have hsign : t.isSign = true → cs.drop k ≠ [] := by
      intro ht hnil
      rw [hnil] at h
      cases h
      rw [hlast t rfl] at ht
      contradiction
    refine .token (step_append hs hrest hsign) ?_
    change Reads false ((cs ++ rest).drop k) ts rest
    rw [List.drop_append_of_le_length (length_of_step hs)]
    refine ih (fun u hu => hlast u ?_) rfl
    rw [List.getLast?_cons, hu]
    rfl

end Lexer
end Hologram.Script
