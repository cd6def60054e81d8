import Hologram.Proofs.Outcome
import Hologram.Script.Lexer
import Mathlib.Tactic.SplitIfs

/-! Reading tokens as a relation between texts. A text is read with the characters after it in
place, so that what is read first and what is read after it are put together without splitting a
token. -/
namespace Hologram.Script
namespace Lexer

/-- Reading some tokens from the front of a text leaves its rest; comments are passed over only
where they are allowed. -/
inductive Reads (comments : Bool) : List Char → List Token → List Char → Prop where
  | done {cs : List Char} : Reads comments cs [] cs
  | blank {c : Char} {cs rest : List Char} {ts : List Token} (hc : isSpace c = true)
      (h : Reads comments cs ts rest) : Reads comments (c :: cs) ts rest
  | comment {c : Char} {cs rest : List Char} {ts : List Token} {k : Nat}
      (hcomments : comments = true) (hc : isSpace c = false) (hs : step c cs = .ok (none, k))
      (h : Reads comments (cs.drop k) ts rest) : Reads comments (c :: cs) ts rest
  | token {c : Char} {cs rest : List Char} {ts : List Token} {t : Token} {k : Nat}
      (hs : step c cs = .ok (some t, k)) (h : Reads comments (cs.drop k) ts rest) :
      Reads comments (c :: cs) (t :: ts) rest

namespace Reads

variable {comments : Bool} {cs rest : List Char} {ts us : List Token}

/-- Tokens that are read one after the other are read together. -/
theorem append {middle : List Char} (h : Reads comments cs ts middle)
    (h' : Reads comments middle us rest) : Reads comments cs (ts ++ us) rest := by
  induction h with
  | done => exact h'
  | blank hc _ ih => exact .blank hc (ih h')
  | comment hcomments hc hs _ ih => exact .comment hcomments hc hs (ih h')
  | token hs _ ih => exact .token hs (ih h')

/-- What is read without comments is read where they are allowed, too. -/
theorem allow (h : Reads false cs ts rest) : Reads comments cs ts rest := by
  induction h with
  | done => exact .done
  | blank hc _ ih => exact .blank hc ih
  | comment hcomments => contradiction
  | token hs _ ih => exact .token hs ih

end Reads

/-- The characters that are tokens on their own, each with its token. -/
def punctuations : List (Char × Token) :=
  [('(', .leftParen), (')', .rightParen), ('\x7b', .leftBrace), ('\x7d', .rightBrace),
    ('[', .leftBracket), (']', .rightBracket), (',', .comma), (';', .semicolon), (':', .colon),
    ('$', .dollar)]

theorem mem_punctuations {c : Char} {t : Token} (h : punctuation? c = some t) :
    (c, t) ∈ punctuations := by
  unfold punctuation? at h
  split at h <;> cases h <;> simp [punctuations]

/-- Characters of a kind that no punctuation is of are no punctuation. -/
theorem punctuation?_eq_none {p : Char → Bool} {c : Char} (hc : p c = true)
    (hp : ∀ entry ∈ punctuations, p entry.1 = false) : punctuation? c = none := by
  cases h : punctuation? c with
  | none => rfl
  | some t =>
    have hpunctuation := hp _ (mem_punctuations h)
    rw [hc] at hpunctuation
    contradiction

theorem isSpace_eq_false {p : Char → Bool} {c : Char} (hc : p c = true)
    (hp : [' ', '\t', '\n', '\r'].any p = false) : isSpace c = false := by
  have hmem : c ∉ [' ', '\t', '\n', '\r'] := fun hmem => List.any_eq_false.mp hp c hmem hc
  simpa [isSpace, and_assoc] using hmem

/-- A blank is read together with all the blanks after it. -/
theorem step_of_isSpace {c : Char} (h : isSpace c = true) (cs : List Char) :
    step c cs = .ok (none, (cs.takeWhile isSpace).length) := by
  rw [step, punctuation?_eq_none h (by decide)]
  dsimp only
  rw [if_pos h]

/-- Blanks at the front leave no tokens. -/
theorem Reads.blanks {comments : Bool} {cs rest : List Char} {ts : List Token}
    (h : Reads comments (cs.dropWhile isSpace) ts rest) : Reads comments cs ts rest := by
  induction cs with
  | nil => exact h
  | cons c cs ih =>
    by_cases hc : isSpace c = true
    · rw [List.dropWhile_cons_of_pos hc] at h
      exact .blank hc (ih h)
    · rwa [List.dropWhile_cons_of_neg hc] at h

/-- To the end of the text, blanks at the front make no difference. -/
theorem Reads.dropWhile {comments : Bool} {cs : List Char} {ts : List Token}
    (h : Reads comments cs ts []) : Reads comments (cs.dropWhile isSpace) ts [] := by
  induction cs generalizing ts with
  | nil => exact h
  | cons c cs ih =>
    by_cases hc : isSpace c = true
    · rw [List.dropWhile_cons_of_pos hc]
      cases h with
      | blank _ h => exact ih h
      | comment _ hc' => rw [hc] at hc'; contradiction
      | token hs =>
        rw [step_of_isSpace hc] at hs
        cases hs
    · rwa [List.dropWhile_cons_of_neg hc]

theorem drop_takeWhile_length (p : Char → Bool) (cs : List Char) :
    cs.drop (cs.takeWhile p).length = cs.dropWhile p := by
  calc cs.drop (cs.takeWhile p).length
      = (cs.takeWhile p ++ cs.dropWhile p).drop (cs.takeWhile p).length := by
        rw [List.takeWhile_append_dropWhile]
    _ = cs.dropWhile p := List.drop_left

/-- Scanning a whole text gives the tokens that are read from it. -/
theorem reads_of_scan {offset : Nat} {read lexemes : List Lexeme} {cs : List Char}
    (h : scan offset read cs = .ok lexemes) :
    ∃ more, lexemes = read.reverse ++ more ∧ Reads true cs (more.map (·.token)) [] := by
  fun_induction scan offset read cs with
  | case1 offset read =>
    cases h
    exact ⟨[], (List.append_nil _).symm, .done⟩
  | case2 => contradiction
  | case3 offset read c cs token? further hstep read' ih =>
    obtain ⟨more, rfl, hmore⟩ := ih h
    cases token? with
    | some token =>
      exact ⟨⟨token, offset⟩ :: more, by simp [read'], .token hstep hmore⟩
    | none =>
      refine ⟨more, rfl, ?_⟩
      by_cases hc : isSpace c = true
      · rw [step_of_isSpace hc] at hstep
        cases hstep
        rw [drop_takeWhile_length] at hmore
        exact .blank hc hmore.blanks
      · exact .comment rfl (by simpa using hc) hstep hmore

/-- A text whose tokens can be read to the end is scanned. -/
theorem scan_of_reads {cs : List Char} {ts : List Token} (h : Reads true cs ts [])
    (offset : Nat) (read : List Lexeme) :
    ∃ more, scan offset read cs = .ok (read.reverse ++ more) ∧ more.map (·.token) = ts := by
  fun_induction scan offset read cs generalizing ts with
  | case1 offset read =>
    cases h
    exact ⟨[], by rw [List.append_nil], rfl⟩
  | case2 offset read c cs cause hstep =>
    cases h with
    | blank hc =>
      rw [step_of_isSpace hc] at hstep
      contradiction
    | comment _ _ hs =>
      rw [hs] at hstep
      contradiction
    | token hs =>
      rw [hs] at hstep
      contradiction
  | case3 offset read c cs token? further hstep read' =>
    rename_i ih
    cases h with
    | blank hc h =>
      rw [step_of_isSpace hc] at hstep
      cases hstep
      rw [drop_takeWhile_length] at ih ⊢
      exact ih h.dropWhile
    | comment _ _ hs h =>
      rw [hs] at hstep
      cases hstep
      exact ih h
    | token hs h =>
      rw [hs] at hstep
      cases hstep
      obtain ⟨more, hmore, rfl⟩ := ih h
      exact ⟨⟨_, offset⟩ :: more, by simpa [read'] using hmore, rfl⟩

/-- A text is tokenized exactly when its tokens can be read to the end. -/
theorem tokens_ofText_iff {text : String} {ts : List Token} :
    (∃ tokens, TokenList.ofText text = .ok tokens ∧ tokens.lexemes.map (·.token) = ts) ↔
      Reads true text.toList ts [] := by
  constructor
  · rintro ⟨tokens, h, rfl⟩
    obtain ⟨lexemes, hscan, h⟩ := bind_eq_ok.mp h
    rw [← pure_eq_ok.mp h]
    obtain ⟨more, rfl, hmore⟩ := reads_of_scan hscan
    exact hmore
  · intro h
    obtain ⟨more, hmore, rfl⟩ := scan_of_reads h 0 []
    exact ⟨⟨more, text.toList.length⟩, by rw [TokenList.ofText, hmore]; rfl, rfl⟩

/-- To the end of a text only one list of tokens can be read. -/
theorem Reads.unique {cs : List Char} {ts us : List Token} (h : Reads true cs ts [])
    (h' : Reads true cs us []) : ts = us := by
  obtain ⟨more, hmore, rfl⟩ := scan_of_reads h 0 []
  obtain ⟨others, hothers, rfl⟩ := scan_of_reads h' 0 []
  rw [hmore] at hothers
  cases hothers
  rfl

end Lexer

def tokensOf (text : String) : Except CompileError (List Token) :=
  (TokenList.ofText text).map fun tokens => tokens.lexemes.map (·.token)

theorem tokensOf_eq_ok_iff {text : String} {ts : List Token} :
    tokensOf text = .ok ts ↔ Lexer.Reads true text.toList ts [] := by
  rw [← Lexer.tokens_ofText_iff, tokensOf]
  cases TokenList.ofText text with
  | error e => exact ⟨nofun, nofun⟩
  | ok tokens =>
    constructor
    · rintro ⟨⟩
      exact ⟨tokens, rfl, rfl⟩
    · rintro ⟨_, ⟨⟩, rfl⟩
      rfl

end Hologram.Script
