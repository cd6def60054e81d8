import Hologram.Proofs.Script.Comments

/-! Code that is spliced into other code as a text. A text that passes for an atom is read as one
operand that nothing outside of its parentheses splits. -/
namespace Hologram.Script
namespace Lexer

/-- No blank belongs to a name. -/
theorem isNamePart_of_isBlank {c : Char} (h : Text.isBlank c = true) : isNamePart c = false := by
  have hruns : ∀ run ∈ Text.blankRuns, ∀ n ∈ List.range' run.1 (run.2 + 1 - run.1),
      isNamePart (Char.ofNat n) = false := by
    decide +kernel
  unfold Text.isBlank at h
  obtain ⟨run, hrun, hc⟩ := List.any_eq_true.mp h
  simp only [Bool.and_eq_true, decide_eq_true_eq] at hc
  have hmem : c.toNat ∈ List.range' run.1 (run.2 + 1 - run.1) := by
    rw [List.mem_range'_1]
    omega
  have hname := hruns run hrun _ hmem
  rwa [Char.ofNat_toNat] at hname

theorem isNamePart_of_isNameStart {c : Char} (h : isNameStart c = true) : isNamePart c = true := by
  simp [isNamePart, h]

theorem isNamePart_of_mem {x : String} (h : isName x = true) {c : Char} (hc : c ∈ x.toList) :
    isNamePart c = true := by
  unfold isName at h
  split at h
  · rename_i d ds hx
    simp only [Bool.and_eq_true, List.all_eq_true] at h
    rw [hx] at hc
    have hall : ∀ c ∈ d :: ds, isNamePart c = true :=
      List.forall_mem_cons.mpr ⟨isNamePart_of_isNameStart h.1.1, h.1.2⟩
    exact hall c hc
  · contradiction

/-- A step that reads a blank passes over it. -/
theorem isSpace_of_isBlank {c : Char} {cs : List Char} {token? : Option Token} {k : Nat}
    (hc : Text.isBlank c = true) (h : step c cs = .ok (token?, k)) : isSpace c = true := by
  have hname := isNamePart_of_isBlank hc
  cases shape_of_step h with
  | punctuation hp =>
    rw [punctuation?_eq_none hc (by decide)] at hp
    contradiction
  | blank hspace => exact hspace
  | quotation hquote =>
    rcases hquote with rfl | rfl <;> exact absurd hc (by decide)
  | number hdigit => exact absurd (isNamePart_of_isDigit hdigit) (by simp [hname])
  | fraction hpoint =>
    subst hpoint
    exact absurd hc (by decide)
  | word hstart => exact absurd (isNamePart_of_isNameStart hstart) (by simp [hname])
  | sign hsign => exact absurd hsign (sign_ne_ok hc (by decide) _ _ _)

/-- Blanks at the front of a text that is read to its end leave no tokens, there or before another
text. -/
theorem Reads.of_blanks {comments : Bool} {blanks cs : List Char} {ts : List Token}
    (h : Reads comments (blanks ++ cs) ts []) (hblanks : ∀ c ∈ blanks, Text.isBlank c = true) :
    Reads comments cs ts [] ∧ ∀ rest, Reads comments (blanks ++ rest) [] rest := by
  induction blanks with
  | nil => exact ⟨h, fun rest => .done⟩
  | cons c blanks ih =>
    have hmore : ∀ d ∈ blanks, Text.isBlank d = true := fun d hd => hblanks d (.tail c hd)
    cases h with
    | blank hspace h => exact ⟨(ih h hmore).1, fun rest => .blank hspace ((ih h hmore).2 rest)⟩
    | comment _ hspace hs =>
      rw [isSpace_of_isBlank (hblanks c (.head _)) hs] at hspace
      contradiction
    | token hs =>
      rw [step_of_isSpace (isSpace_of_isBlank (hblanks c (.head _)) hs)] at hs
      cases hs

/-- Only a question mark is read as one. -/
theorem eq_question_of_step {c : Char} {cs : List Char} {k : Nat}
    (h : step c cs = .ok (some .question, k)) : c = '?' := by
  generalize ht : some Token.question = token? at h
  cases shape_of_step h with
  | punctuation hp =>
    cases ht
    exact absurd (mem_punctuations hp) (by simp [punctuations])
  | blank | quotation | fraction => cases ht
  | number _ hnumber =>
    subst ht
    obtain ⟨-, -, ⟨n, ⟨⟩, -⟩ | ⟨x, ⟨⟩⟩⟩ := number_of_ok hnumber
  | word =>
    have hmem := Token.ofWord_mem (c :: cs.takeWhile isNamePart)
    rw [← Option.some.inj ht] at hmem
    exact absurd hmem (by simp [Token.ofWords])
  | sign hsign =>
    subst ht
    exact (sign_of_ok hsign).2.2.2 rfl

theorem Reads.mem_of_question {comments : Bool} {cs rest : List Char} {ts : List Token}
    (h : Reads comments cs ts rest) (hts : Token.question ∈ ts) : '?' ∈ cs := by
  induction h with
  | done => contradiction
  | blank _ _ ih => exact .tail _ (ih hts)
  | comment _ _ _ _ ih => exact .tail _ (List.mem_of_mem_drop (ih hts))
  | token hs _ ih =>
    rcases List.mem_cons.mp hts with rfl | hts
    · rw [eq_question_of_step hs]
      exact .head _
    · exact .tail _ (List.mem_of_mem_drop (ih hts))

/-- What is read at the front of a text that is read to its end. -/
theorem Reads.exists_step {c : Char} {cs : List Char} {ts : List Token}
    (h : Reads true (c :: cs) ts []) : (isSpace c = true ∧ Reads true cs ts []) ∨
      ∃ token? k us, isSpace c = false ∧ step c cs = .ok (token?, k) ∧ ts = token?.toList ++ us ∧
        Reads true (cs.drop k) us [] := by
  cases h with
  | blank hspace h => exact .inl ⟨hspace, h⟩
  | comment _ hspace hs h => exact .inr ⟨none, _, ts, hspace, hs, rfl, h⟩
  | token hs h =>
    refine .inr ⟨some _, _, _, ?_, hs, rfl, h⟩
    by_contra hspace
    rw [step_of_isSpace (by simpa using hspace)] at hs
    cases hs

/-- Blanks alone are no tokens. -/
theorem Reads.eq_nil_of_blanks {comments : Bool} {blanks : List Char} {ts : List Token}
    (h : Reads comments blanks ts []) (hblanks : ∀ c ∈ blanks, Text.isBlank c = true) :
    ts = [] := by
  rw [← List.append_nil blanks] at h
  cases (h.of_blanks hblanks).1
  rfl

theorem exists_trim (cs : List Char) : ∃ before after, cs = before ++ (Text.trim cs ++ after) ∧
    (∀ c ∈ before, Text.isBlank c = true) ∧ ∀ c ∈ after, Text.isBlank c = true := by
  refine ⟨cs.takeWhile Text.isBlank,
    ((cs.dropWhile Text.isBlank).reverse.takeWhile Text.isBlank).reverse, ?_,
    List.all_eq_true.mp List.all_takeWhile, fun c hc => ?_⟩
  · unfold Text.trim
    rw [← List.reverse_append, List.takeWhile_append_dropWhile, List.reverse_reverse,
      List.takeWhile_append_dropWhile]
  · exact List.all_eq_true.mp List.all_takeWhile c (List.mem_reverse.mp hc)

/-- Tokens of words and numbers, which split nothing and open no parenthesis. -/
def Wordlike (t : Token) : Prop :=
  t.splits = false ∧ t ≠ .leftParen ∧ t ≠ .rightParen

theorem wordlike_ofWord (word : List Char) : Wordlike (Token.ofWord word) := by
  have hwords : ∀ t ∈ Token.ofWords word, Wordlike t := by
    simp [Token.ofWords, Wordlike, Token.splits]
  exact hwords _ (Token.ofWord_mem word)

/-- A step reads whole words and signs, unless it begins with a quote or a parenthesis. -/
theorem plain_of_step {c : Char} {cs : List Char} {t : Token} {k : Nat}
    (h : step c cs = .ok (some t, k)) (hc : c ∉ "'()\"".toList) :
    (∀ d ∈ cs.take k, isNamePart d = true ∨ d ∈ signs) ∧
      t ≠ .leftParen ∧ t ≠ .rightParen := by
  generalize ht : some t = token? at h
  cases shape_of_step h with
  | punctuation hp =>
    cases ht
    refine ⟨by simp, ?_, ?_⟩
    all_goals
      rintro rfl
      have hmem := mem_punctuations hp
      simp_all [punctuations]
  | blank => contradiction
  | quotation hquote => rcases hquote with rfl | rfl <;> exact absurd hc (by decide)
  | number _ hnumber =>
    subst ht
    obtain ⟨-, hdigits, htoken⟩ := number_of_ok hnumber
    refine ⟨fun d hd => .inl ?_, ?_⟩
    · rcases hdigits d hd with hd | rfl
      · exact isNamePart_of_isDigit hd
      · decide
    · rcases htoken with ⟨n, ⟨⟩, -⟩ | ⟨x, ⟨⟩⟩ <;> simp
  | fraction =>
    cases ht
    rw [take_takeWhile_length]
    exact ⟨fun d hd => .inl (isNamePart_of_isDigit (List.all_eq_true.mp List.all_takeWhile d hd)),
      by simp, by simp⟩
  | word =>
    cases ht
    rw [take_takeWhile_length]
    exact ⟨fun d hd => .inl (List.all_eq_true.mp List.all_takeWhile d hd), (wordlike_ofWord _).2⟩
  | sign hsign =>
    subst ht
    obtain ⟨ht, -, hsigns, -⟩ := sign_of_ok hsign
    refine ⟨fun d hd => .inr (hsigns d (.tail c hd)), ?_, ?_⟩
    all_goals
      rintro rfl
      contradiction

end Lexer

namespace Atomic
open Lexer

theorem closesAtEnd_cons {depth : Nat} {quoted : Bool} {c : Char} {cs : List Char}
    (hc : c ∉ "'()".toList) :
    closesAtEnd depth quoted (c :: cs) = closesAtEnd depth quoted cs := by
  rw [closesAtEnd] <;> (rintro rfl; exact hc (by decide))

/-- Characters that are no quotes and no parentheses make no difference to where a text closes. -/
theorem closesAtEnd_append {depth : Nat} {before after : List Char}
    (h : ∀ c ∈ before, c ∉ "'()".toList) :
    closesAtEnd depth false (before ++ after) = closesAtEnd depth false after := by
  induction before with
  | nil => rfl
  | cons c before ih =>
    rw [List.cons_append, closesAtEnd_cons (h c (.head _)), ih fun d hd => h d (.tail c hd)]

/-- A quotation closes before the text does. -/
theorem closesAtEnd_quoted {depth : Nat} {cs : List Char} (h : closesAtEnd depth true cs = true) :
    ∃ text after, cs = text ++ '\'' :: after ∧ '\'' ∉ text ∧
      closesAtEnd depth false after = true := by
  induction cs with
  | nil => contradiction
  | cons c cs ih =>
    by_cases hc : c = '\''
    · subst hc
      exact ⟨[], cs, rfl, List.not_mem_nil, h⟩
    · have hrest : closesAtEnd depth true cs = true := by
        by_cases hparens : c = '(' ∨ c = ')'
        · rcases hparens with rfl | rfl <;> exact h
        · rwa [closesAtEnd_cons (by simp_all)] at h
      obtain ⟨text, after, rfl, htext, hafter⟩ := ih hrest
      exact ⟨c :: text, after, rfl, by simp [htext, Ne.symm hc], hafter⟩

theorem ne_nil_of_closesAtEnd {depth : Nat} {quoted : Bool} {cs : List Char}
    (h : closesAtEnd depth quoted cs = true) : cs ≠ [] := by
  rintro rfl
  contradiction

/-- Past characters that are no quotes and no parentheses, a text closes where it did. -/
theorem closesAtEnd_drop {c : Char} {cs : List Char} {k depth : Nat} (hc : c ∉ "'()".toList)
    (htaken : ∀ d ∈ cs.take k, d ∉ "'()".toList)
    (hclose : closesAtEnd depth false (c :: cs) = true) :
    k < cs.length ∧ closesAtEnd depth false (cs.drop k) = true := by
  rw [closesAtEnd_cons hc, ← List.take_append_drop k cs, closesAtEnd_append htaken] at hclose
  exact ⟨by simpa using ne_nil_of_closesAtEnd hclose, hclose⟩

/-- No character of words, signs, comments and strings in double quotes is a quote or a parenthesis,
if none is hidden. -/
theorem not_mem_of_step {c : Char} {cs : List Char} {token? : Option Token} {k : Nat}
    (hs : step c cs = .ok (token?, k)) (hspace : isSpace c = false) (hc : c ∉ "'()".toList)
    (hhidden : ∀ d ∈ hidden (c :: cs), d ∉ "'()".toList) :
    (∀ d ∈ cs.take k, d ∉ "'()".toList) ∧ Token.depth token?.toList = 0 := by
  by_cases hhides : c = '"' ∨ (c = '/' ∧ token? = none)
  · rw [hidden_of_step hs, if_pos hhides] at hhidden
    refine ⟨fun d hd => hhidden d (List.mem_append_left _ hd), ?_⟩
    rcases hhides with rfl | ⟨-, rfl⟩
    · obtain ⟨text, after, -, -, rfl, -⟩ := quotation_eq_ok (show quotation '"' cs = _ from hs)
      rfl
    · rfl
  · cases token? with
    | none => exact absurd (.inr ⟨eq_slash_of_sign (sign_of_comment hspace hs), rfl⟩) hhides
    | some t =>
      have hplain : c ∉ "'()\"".toList := by
        have hne : c ≠ '"' := fun h => hhides (.inl h)
        simp at hc ⊢
        tauto
      obtain ⟨htaken, hleft, hright⟩ := plain_of_step hs hplain
      refine ⟨fun d hd hmem => ?_, by simp [hleft, hright]⟩
      simp at hmem
      rcases htaken d hd with hd | hd <;> rcases hmem with rfl | rfl | rfl <;>
        exact absurd hd (by decide)

/-- A step reads alike with more after a text that goes on behind what the step reads. -/
theorem step_append_of_lt {c : Char} {cs rest : List Char} {token? : Option Token} {k : Nat}
    (hs : step c cs = .ok (token?, k)) (hspace : isSpace c = false) (hk : k < cs.length)
    (hrest : Separate rest) : step c (cs ++ rest) = .ok (token?, k) := by
  cases token? with
  | none =>
    obtain ⟨-, hmore | ⟨rfl, -⟩⟩ := comment_append hspace hs
    · exact hmore rest
    · exact absurd hk (Nat.lt_irrefl _)
  | some t => exact step_append hs hrest fun _ hnil => by simp at hnil; omega

/-- A step inside of what closes at its end reads the parenthesis at the end, or it leaves something
that closes at its end from a depth that the token accounts for. -/
theorem step_of_closes {c : Char} {cs blanks : List Char} {token? : Option Token} {k depth : Nat}
    (hs : step c (cs ++ blanks) = .ok (token?, k)) (hspace : isSpace c = false)
    (hclose : closesAtEnd depth false (c :: cs) = true) (hdepth : 1 ≤ depth)
    (hhidden : ∀ d ∈ hidden (c :: (cs ++ blanks)), d ∉ "'()".toList) :
    (c = ')' ∧ cs = []) ∨ ∃ deeper : Nat, 1 ≤ deeper ∧ k < cs.length ∧
      closesAtEnd deeper false (cs.drop k) = true ∧
      (deeper : Int) = depth + Token.depth token?.toList := by
  by_cases hopen : c = '('
  · subst hopen
    cases hs
    change closesAtEnd (depth + 1) false cs = true at hclose
    have hne := List.length_pos_of_ne_nil (ne_nil_of_closesAtEnd hclose)
    exact .inr ⟨depth + 1, by omega, hne, hclose, rfl⟩
  by_cases hclosing : c = ')'
  · subst hclosing
    cases hs
    change (if depth ≤ 1 then cs.isEmpty
      else closesAtEnd (depth - 1) false cs) = true at hclose
    split_ifs at hclose with hone
    · exact .inl ⟨rfl, List.isEmpty_iff.mp hclose⟩
    · have hne := List.length_pos_of_ne_nil (ne_nil_of_closesAtEnd hclose)
      refine .inr ⟨depth - 1, by omega, hne, hclose, ?_⟩
      change ((depth - 1 : Nat) : Int) = depth + (-1 : Int)
      omega
  by_cases hquotation : c = '\''
  · subst hquotation
    obtain ⟨text, after, rfl, htext, hclose⟩ := closesAtEnd_quoted hclose
    change quotation '\'' (text ++ '\'' :: after ++ blanks) = _ at hs
    rw [List.append_assoc, List.cons_append, quotation_of_not_mem htext] at hs
    cases hs
    have hne := List.length_pos_of_ne_nil (ne_nil_of_closesAtEnd hclose)
    have hdrop : (text ++ '\'' :: after).drop (text.length + 1) = after := by
      rw [← List.drop_drop, List.drop_left]
      rfl
    refine .inr ⟨depth, hdepth, by simp; omega, by rwa [hdrop], ?_⟩
    rfl
  · have hc : c ∉ "'()".toList := by simp [hopen, hclosing, hquotation]
    obtain ⟨htaken, hzero⟩ := not_mem_of_step hs hspace hc hhidden
    obtain ⟨hk, hclose⟩ := closesAtEnd_drop hc (fun d hd => htaken d (by
      rw [List.take_append]
      exact List.mem_append_left _ hd)) hclose
    exact .inr ⟨depth, hdepth, hk, hclose, by rw [hzero, Int.add_zero]⟩

/-- A text at a depth of open parentheses that is read alike whatever comes after it, and in which
some parenthesis is open before every token. -/
def Inside (depth : Nat) (cs : List Char) (ts : List Token) : Prop :=
  (∀ rest, Separate rest → Reads true (cs ++ rest) ts rest) ∧
    ∀ before t after, ts = before ++ t :: after → 0 < depth + Token.depth before

namespace Inside

variable {c : Char} {cs : List Char} {ts : List Token} {depth deeper k : Nat}

theorem blank (hspace : isSpace c = true) (h : Inside depth cs ts) : Inside depth (c :: cs) ts :=
  ⟨fun rest hrest => .blank hspace (h.1 rest hrest), h.2⟩

theorem step {token? : Option Token} (hs : step c cs = .ok (token?, k))
    (hspace : isSpace c = false) (hk : k < cs.length) (hdepth : 1 ≤ depth)
    (hdeep : (deeper : Int) = depth + Token.depth token?.toList)
    (h : Inside deeper (cs.drop k) ts) : Inside depth (c :: cs) (token?.toList ++ ts) := by
  constructor
  · intro rest hrest
    have hs' := step_append_of_lt hs hspace hk hrest
    have hmore := h.1 rest hrest
    rw [← List.drop_append_of_le_length hk.le] at hmore
    cases token? with
    | none => exact .comment rfl hspace hs' hmore
    | some t => exact .token hs' hmore
  · intro before t after hts
    cases token? with
    | none =>
      have hpos := h.2 before t after hts
      rw [hdeep] at hpos
      simpa using hpos
    | some u =>
      cases before with
      | nil =>
        rw [Token.depth_nil]
        omega
      | cons b before =>
        simp only [Option.toList, List.cons_append, List.cons.injEq] at hts
        have hpos := h.2 before t after hts.2
        rw [hdeep] at hpos
        rw [← hts.1, ← List.singleton_append, Token.depth_append, ← Int.add_assoc]
        exact hpos

end Inside

/-- The last parenthesis of all closes what is inside. -/
theorem inside_closing {blanks : List Char} {ts : List Token} {depth : Nat} (hdepth : 1 ≤ depth)
    (hblanks : ∀ c ∈ blanks, Text.isBlank c = true) (h : Reads true blanks ts []) :
    Inside depth (')' :: blanks) (.rightParen :: ts) := by
  rw [h.eq_nil_of_blanks hblanks]
  rw [← List.append_nil blanks] at h
  refine ⟨fun rest _ => .token rfl ((h.of_blanks hblanks).2 rest), fun before t after hts => ?_⟩
  cases before with
  | nil =>
    rw [Token.depth_nil]
    omega
  | cons b before => simp at hts

/-- What closes at its end is inside of parentheses up to the end. -/
theorem inside_of_closes {cs blanks : List Char} {ts : List Token} {depth : Nat}
    (hclose : closesAtEnd depth false cs = true) (hdepth : 1 ≤ depth)
    (hhidden : ∀ d ∈ hidden (cs ++ blanks), d ∉ "'()".toList)
    (hblanks : ∀ c ∈ blanks, Text.isBlank c = true) (h : Reads true (cs ++ blanks) ts []) :
    Inside depth (cs ++ blanks) ts := by
  obtain ⟨c, cs, rfl⟩ := List.exists_cons_of_ne_nil (ne_nil_of_closesAtEnd hclose)
  rw [List.cons_append] at h hhidden ⊢
  rcases h.exists_step with ⟨hspace, h⟩ | ⟨token?, k, us, hspace, hs, rfl, hrest⟩
  · have hc : c ∉ "'()".toList := by
      intro hmem
      simp at hmem
      rcases hmem with rfl | rfl | rfl <;> contradiction
    rw [closesAtEnd_cons hc] at hclose
    rw [hidden_of_isSpace hspace] at hhidden
    exact (inside_of_closes hclose hdepth hhidden hblanks h).blank hspace
  · rcases step_of_closes hs hspace hclose hdepth hhidden with
      ⟨rfl, rfl⟩ | ⟨deeper, hdeeper, hk, hclose, hdeep⟩
    · cases hs
      exact inside_closing hdepth hblanks hrest
    · have hdrop : (cs ++ blanks).drop k = cs.drop k ++ blanks :=
        List.drop_append_of_le_length hk.le
      have hfewer (d : Char) (hd : d ∈ hidden (cs.drop k ++ blanks)) : d ∉ "'()".toList := by
        refine hhidden d ?_
        rw [hidden_of_step hs, hdrop]
        exact List.mem_append_right _ hd
      rw [hdrop] at hrest
      have hinside := inside_of_closes hclose hdeeper hfewer hblanks hrest
      rw [← hdrop] at hinside
      exact hinside.step hs hspace (by simp; omega) hdepth hdeep
  termination_by cs.length

/-- Where a name or a number begins, a step reads a word or a number within it, whatever follows. -/
theorem wordlike_of_step {c : Char} {cs rest : List Char} {token? : Option Token} {k : Nat}
    (hc : isWordChar c = true) (hrest : Separate rest) (h : step c (cs ++ rest) = .ok (token?, k)) :
    ∃ t, token? = some t ∧ Wordlike t ∧ k ≤ cs.length ∧
      ∀ rest', Separate rest' → step c (cs ++ rest') = .ok (token?, k) := by
  cases shape_of_step h with
  | punctuation hp =>
    rw [punctuation?_eq_none hc (by decide)] at hp
    contradiction
  | blank hspace =>
    simp only [isSpace, Bool.or_eq_true, beq_iff_eq] at hspace
    rcases hspace with ((rfl | rfl) | rfl) | rfl <;> exact absurd hc (by decide)
  | quotation hquote => rcases hquote with rfl | rfl <;> exact absurd hc (by decide)
  | number hdigit hnumber =>
    rw [number_append hrest] at hnumber
    have hmore (rest' : List Char) (hrest' : Separate rest') :
        step c (cs ++ rest') = .ok (token?, k) := by
      rw [step_of_isDigit hdigit, number_append hrest', hnumber]
    obtain ⟨hk, -, ⟨n, rfl, -⟩ | ⟨x, rfl⟩⟩ := number_of_ok hnumber
    · exact ⟨_, rfl, ⟨rfl, by simp, by simp⟩, hk, hmore⟩
    · exact ⟨_, rfl, ⟨rfl, by simp, by simp⟩, hk, hmore⟩
  | fraction hpoint hdigits =>
    subst hpoint
    rw [takeWhile_append_of_separate (fun _ => isNamePart_of_isDigit) hrest] at hdigits ⊢
    refine ⟨_, rfl, ⟨rfl, by simp, by simp⟩, length_takeWhile_le _ cs, fun rest' hrest' => ?_⟩
    change (if ((cs ++ rest').takeWhile Char.isDigit).isEmpty then _ else _) = _
    rw [takeWhile_append_of_separate (fun _ => isNamePart_of_isDigit) hrest',
      if_neg (by simpa using hdigits)]
  | word hstart =>
    rw [takeWhile_append_of_separate (fun _ hd => hd) hrest]
    refine ⟨_, rfl, wordlike_ofWord _, length_takeWhile_le _ cs, fun rest' hrest' => ?_⟩
    rw [step_of_isNameStart hstart, takeWhile_append_of_separate (fun _ hd => hd) hrest']
  | sign hsign => exact absurd hsign (sign_ne_ok hc (by decide) _ _ _)

/-- A run of word characters spells tokens of its own, which come before those of what follows. -/
theorem exists_wordlike {word rest : List Char} {ts : List Token}
    (hword : ∀ c ∈ word, isWordChar c = true) (hrest : Separate rest)
    (h : Reads true (word ++ rest) ts []) :
    ∃ us vs, ts = us ++ vs ∧ (∀ t ∈ us, Wordlike t) ∧ Spells word us ∧ Reads true rest vs [] := by
  cases word with
  | nil => exact ⟨[], ts, rfl, nofun, fun _ _ => .done, h⟩
  | cons c word =>
    obtain ⟨hc, hmore⟩ := List.forall_mem_cons.mp hword
    rcases h.exists_step with ⟨hspace, -⟩ | ⟨token?, k, us, hspace, hs, rfl, hmoreReads⟩
    · obtain ⟨t, ht, -⟩ := wordlike_of_step hc hrest (step_of_isSpace hspace (word ++ rest))
      contradiction
    · obtain ⟨t, rfl, ht, hk, hstep⟩ := wordlike_of_step hc hrest hs
      have hdropped (d : Char) (hd : d ∈ word.drop k) : isWordChar d = true :=
        hmore d (List.mem_of_mem_drop hd)
      change Reads true ((word ++ rest).drop k) us [] at hmoreReads
      rw [List.drop_append_of_le_length hk] at hmoreReads
      obtain ⟨ws, vs, rfl, hws, hspells, hvs⟩ := exists_wordlike hdropped hrest hmoreReads
      refine ⟨t :: ws, vs, rfl, List.forall_mem_cons.mpr ⟨ht, hws⟩, fun rest' hrest' => ?_, hvs⟩
      refine .token (hstep rest' hrest') ?_
      change Reads false ((word ++ rest').drop k) ws rest'
      rw [List.drop_append_of_le_length hk]
      exact hspells rest' hrest'
  termination_by word.length

theorem depth_eq_zero_of_wordlike {ts : List Token} (h : ∀ t ∈ ts, Wordlike t) :
    Token.depth ts = 0 := by
  induction ts with
  | nil => rfl
  | cons t ts ih =>
    obtain ⟨-, hleft, hright⟩ := h t (.head _)
    rw [Token.depth_cons, if_neg hleft, if_neg hright, ih fun u hu => h u (.tail _ hu)]
    rfl

/-- A text that is read alike whatever comes after it, and that nothing splits outside of its
parentheses. -/
def Solid (cs : List Char) (ts : List Token) : Prop :=
  (∀ rest, Separate rest → Reads true (cs ++ rest) ts rest) ∧
    ∀ before t after, ts = before ++ t :: after → Token.depth before = 0 → t.splits = false

/-- A call or a group is solid. -/
theorem solid_of_closes {word r blanks : List Char} {ts : List Token}
    (hword : ∀ c ∈ word, isWordChar c = true) (hclose : closesAtEnd 1 false r = true)
    (hhidden : ∀ d ∈ hidden (word ++ '(' :: (r ++ blanks)), d ∉ "'()".toList)
    (hblanks : ∀ c ∈ blanks, Text.isBlank c = true)
    (h : Reads true (word ++ '(' :: (r ++ blanks)) ts []) :
    Solid (word ++ '(' :: (r ++ blanks)) ts := by
  obtain ⟨us, vs, rfl, hus, hspells, hvs⟩ := exists_wordlike hword (.cons (by decide) _) h
  obtain ⟨ws, rfl, hws⟩ : ∃ ws, vs = .leftParen :: ws ∧ Reads true (r ++ blanks) ws [] := by
    cases hvs with
    | blank hspace => contradiction
    | comment _ _ hs => cases hs
    | token hs h =>
      cases hs
      exact ⟨_, rfl, h⟩
  have hfront (rest : List Char) :
      Reads true (word ++ '(' :: rest) (us ++ [.leftParen]) rest :=
    (hspells _ (.cons (by decide) _)).allow.append (.token rfl .done)
  have hsubset := (hfront (r ++ blanks)).hidden_subset
  obtain ⟨hmore, hpos⟩ := inside_of_closes hclose (Nat.le_refl 1)
    (fun d hd => hhidden d (hsubset hd)) hblanks hws
  constructor
  · intro rest hrest
    simpa using (hfront _).append (hmore rest hrest)
  · intro before t after hts hdepth
    rcases List.append_eq_append_iff.mp hts with ⟨more, rfl, hmore⟩ | ⟨more, rfl, hmore⟩
    · cases more with
      | nil =>
        cases hmore
        rfl
      | cons u more =>
        rw [List.cons_append, List.cons.injEq] at hmore
        obtain ⟨rfl, rfl⟩ := hmore
        have hpos := hpos more t after rfl
        rw [Token.depth_append, Token.depth_cons, depth_eq_zero_of_wordlike hus] at hdepth
        simp at hdepth
        omega
    · cases more with
      | nil =>
        cases hmore
        rfl
      | cons u more =>
        rw [List.cons_append, List.cons.injEq] at hmore
        obtain ⟨rfl, rfl⟩ := hmore
        exact (hus t (List.mem_append_right _ (.head _))).1

/-- An atom is solid where no quote and no parenthesis is hidden in it. -/
theorem solid_of_holds {text : String} {ts : List Token} (hatom : holds text = true)
    (hhidden : ∀ d ∈ hidden text.toList, d ∉ "'()".toList) (h : Reads true text.toList ts []) :
    Solid text.toList ts := by
  obtain ⟨lead, trail, htext, hlead, htrail⟩ := exists_trim text.toList
  unfold holds at hatom
  dsimp only at hatom
  rw [htext] at h hhidden ⊢
  obtain ⟨hcore, hblank⟩ := h.of_blanks hlead
  have hsubset := (hblank (Text.trim text.toList ++ trail)).hidden_subset
  suffices hsolid : Solid (Text.trim text.toList ++ trail) ts by
    refine ⟨fun rest hrest => ?_, hsolid.2⟩
    rw [List.append_assoc]
    exact (hblank _).append (hsolid.1 rest hrest)
  replace hhidden := fun d hd => hhidden d (hsubset hd)
  clear hblank hsubset h htext
  generalize Text.trim text.toList = core at *
  have hword : ∀ c ∈ core.takeWhile isWordChar, isWordChar c = true :=
    List.all_eq_true.mp List.all_takeWhile
  have hsplit := List.takeWhile_append_dropWhile (p := isWordChar) (l := core)
  generalize core.takeWhile isWordChar = word at *
  split at hatom
  · rename_i hnil
    rw [hnil, List.append_nil] at hsplit
    subst hsplit
    have htrailing (rest : List Char) (hrest : Separate rest) : Separate (trail ++ rest) := by
      cases trail with
      | nil => exact hrest
      | cons d trail => exact .cons (isNamePart_of_isBlank (htrail d (.head _))) _
    have hend := htrailing [] separate_nil
    rw [List.append_nil] at hend
    obtain ⟨us, vs, rfl, hus, hspells, hvs⟩ := exists_wordlike hword hend hcore
    obtain rfl := hvs.eq_nil_of_blanks htrail
    rw [List.append_nil]
    constructor
    · intro rest hrest
      rw [← List.append_nil trail] at hvs
      rw [List.append_assoc, ← List.append_nil us]
      exact (hspells _ (htrailing rest hrest)).allow.append ((hvs.of_blanks htrail).2 rest)
    · intro before t after hts _
      exact (hus t (hts ▸ List.mem_append_right _ (.head _))).1
  · rename_i r hopen
    rw [hopen] at hsplit
    subst hsplit
    rw [List.append_assoc, List.cons_append] at hcore hhidden ⊢
    exact solid_of_closes hword hatom hhidden htrail hcore
  · contradiction

/-- Nothing splits the tokens of an atom without comments and double quotes outside of its
parentheses. -/
theorem splits_eq_false {text : String} {ts before after : List Token} {t : Token}
    (hatom : holds text = true) (hquote : '"' ∉ text.toList) (h : Reads false text.toList ts [])
    (hts : ts = before ++ t :: after) (hdepth : Token.depth before = 0) : t.splits = false := by
  have hhidden : ∀ d ∈ hidden text.toList, d ∉ "'()".toList := by
    rw [h.hidden_eq_nil hquote]
    nofun
  exact (solid_of_holds hatom hhidden h.allow).2 before t after hts hdepth

end Atomic
end Hologram.Script
