import Hologram.Proofs.Script.Comments

/-! Texts that are cut between their tokens. The pieces are read on their own, and a brace can be
put between them. -/
namespace Hologram.Script
namespace Lexer

section
variable {c : Char} {cs rest : List Char} {token? : Option Token} {k : Nat}

/-- A run of characters that ends within the front of a text is that of the front. -/
theorem takeWhile_of_append {p : Char → Bool}
    (h : ((cs ++ rest).takeWhile p).length ≤ cs.length) :
    (cs ++ rest).takeWhile p = cs.takeWhile p := by
  rw [List.takeWhile_append] at h ⊢
  split_ifs at h ⊢ with hwhole
  · rw [List.length_append] at h
    have hnone : rest.takeWhile p = [] := List.length_eq_zero_iff.mp (by omega)
    rw [hnone, List.append_nil, (List.takeWhile_prefix p).eq_of_length hwhole]
  · rfl

theorem dropWhile_of_append {p : Char → Bool}
    (h : ((cs ++ rest).takeWhile p).length ≤ cs.length) :
    (cs ++ rest).dropWhile p = cs.dropWhile p ++ rest := by
  rw [← drop_takeWhile_length, takeWhile_of_append h,
    List.drop_append_of_le_length (length_takeWhile_le p cs), drop_takeWhile_length]

theorem fractionOf_of_append
    (hdigits : ((cs ++ rest).takeWhile Char.isDigit).length ≤ cs.length)
    (h : fractionOf (cs ++ rest) ≠ [] →
      (cs.takeWhile Char.isDigit).length + 1 + (fractionOf (cs ++ rest)).length ≤ cs.length) :
    fractionOf (cs ++ rest) = fractionOf cs := by
  have hlength := congrArg List.length
    (List.takeWhile_append_dropWhile (p := Char.isDigit) (l := cs))
  rw [List.length_append] at hlength
  unfold fractionOf at h ⊢
  rw [dropWhile_of_append hdigits] at h ⊢
  cases hcs : cs.dropWhile Char.isDigit with
  | nil =>
    rw [hcs] at h hlength
    by_contra hne
    have hlong := h hne
    rw [List.length_nil] at hlength
    omega
  | cons d ds =>
    rw [hcs] at h hlength
    by_cases hd : d = '.'
    · subst hd
      change (ds ++ rest).takeWhile Char.isDigit ≠ [] → _ at h
      change (ds ++ rest).takeWhile Char.isDigit = ds.takeWhile Char.isDigit
      by_cases hnil : (ds ++ rest).takeWhile Char.isDigit = []
      · exact takeWhile_of_append (by simp [hnil])
      · have hlong := h hnil
        change _ + 1 + ((ds ++ rest).takeWhile Char.isDigit).length ≤ _ at hlong
        rw [List.length_cons] at hlength
        exact takeWhile_of_append (by omega)
    · simp [hd]

theorem number_of_append (h : number c (cs ++ rest) = .ok (token?, k)) (hk : k ≤ cs.length) :
    number c cs = .ok (token?, k) := by
  have hdigits : ((cs ++ rest).takeWhile Char.isDigit).length ≤ k := by
    rw [number_eq] at h
    split_ifs at h <;> cases h
    · exact Nat.le_refl _
    · omega
  have htake := takeWhile_of_append (hdigits.trans hk)
  have hfraction : fractionOf (cs ++ rest) = fractionOf cs := by
    refine fractionOf_of_append (hdigits.trans hk) fun hne => ?_
    rw [number_eq, if_neg (by simpa using hne), htake] at h
    cases h
    exact hk
  rw [number_eq, htake, hfraction] at h
  rw [number_eq, h]

theorem quotation_of_append {quote : Char} (h : quotation quote (cs ++ rest) = .ok (token?, k))
    (hk : k ≤ cs.length) : quotation quote cs = .ok (token?, k) := by
  have hless : ((cs ++ rest).takeWhile (· != quote)).length + 1 = k := by
    unfold quotation at h
    dsimp only at h
    split_ifs at h
    cases h
    rfl
  have htake : (cs ++ rest).takeWhile (· != quote) = cs.takeWhile (· != quote) :=
    takeWhile_of_append (by omega)
  unfold quotation at h ⊢
  rw [htake] at h hless
  dsimp only at h ⊢
  rw [if_pos (by omega)]
  split_ifs at h
  exact h

theorem commentLength?_pos {n : Nat} (h : commentLength? cs = some n) : 0 < n := by
  unfold commentLength? at h
  split at h
  · cases h
    exact Nat.zero_lt_two
  · obtain ⟨m, -, rfl⟩ := Option.map_eq_some_iff.mp h
    exact Nat.zero_lt_succ m
  · contradiction

theorem commentLength?_of_append {n : Nat} (h : commentLength? (cs ++ rest) = some n)
    (hn : n ≤ cs.length) : commentLength? cs = some n := by
  fun_induction commentLength? cs generalizing n with
  | case1 => exact h
  | case2 c cs hc ih =>
    rw [List.cons_append] at h
    by_cases hend : c = '*' ∧ (cs ++ rest).head? = some '/'
    · obtain ⟨rfl, hslash⟩ := hend
      cases cs with
      | nil =>
        obtain ⟨more, rfl⟩ := List.head?_eq_some_iff.mp hslash
        cases h
        simp at hn
      | cons d cs =>
        cases hslash
        exact absurd rfl (hc _ rfl)
    · rw [commentLength?] at h
      · obtain ⟨m, hm, rfl⟩ := Option.map_eq_some_iff.mp h
        rw [ih hm (by simpa using hn)]
        rfl
      · rintro r rfl hr
        exact hend ⟨rfl, by rw [hr]; rfl⟩
  | case3 => exact absurd (commentLength?_pos h) (Nat.not_lt_of_le hn)

theorem sign_block (h : sign '/' ('*' :: rest) = .ok (token?, k)) :
    ∃ n, commentLength? rest = some n ∧ token? = none ∧ k = n + 1 := by
  cases hlength : commentLength? rest with
  | none => simp [sign, hlength] at h
  | some n =>
    obtain ⟨rfl, rfl⟩ : none = token? ∧ n + 1 = k := by simpa [sign, hlength] using h
    exact ⟨n, rfl, rfl, rfl⟩

theorem sign_fallback (h : sign '?' ('?' :: rest) = .ok (token?, k)) :
    k = 2 ∨ (token? = some (.operator .coalesce) ∧ k = 1) := by
  by_cases hassign : rest.head? = some '='
  · obtain ⟨more, rfl⟩ := List.head?_eq_some_iff.mp hassign
    cases h
    exact .inl rfl
  · cases rest with
    | nil =>
      cases h
      exact .inr ⟨rfl, rfl⟩
    | cons d rest =>
      have hd : d ≠ '=' := fun hd => hassign (by rw [hd]; rfl)
      obtain ⟨rfl, rfl⟩ : some (Token.operator .coalesce) = token? ∧ 1 = k := by
        simpa [sign, hd] using h
      exact .inr ⟨rfl, rfl⟩

/-- A sign that the next character joins is longer than one character. -/
theorem pos_of_joins {d : Char} (hj : joins c d = true) (h : sign c (d :: rest) = .ok (token?, k)) :
    0 < k := by
  by_cases hblock : c = '/' ∧ d = '*'
  · obtain ⟨rfl, rfl⟩ := hblock
    obtain ⟨n, -, -, rfl⟩ := sign_block h
    exact Nat.succ_pos n
  by_cases hfallback : c = '?' ∧ d = '?'
  · obtain ⟨rfl, rfl⟩ := hfallback
    rcases sign_fallback h with rfl | ⟨-, rfl⟩ <;> decide
  unfold joins at hj
  split at hj <;> first | contradiction | (cases h; simp)

theorem sign_of_append (h : sign c (cs ++ rest) = .ok (token?, k)) (hk : k ≤ cs.length) :
    sign c cs = .ok (token?, k) := by
  cases cs with
  | nil =>
    obtain rfl := Nat.le_zero.mp hk
    have hrest (d : Char) (hd : rest.head? = some d) : joins c d = false := by
      obtain ⟨more, rfl⟩ := List.head?_eq_some_iff.mp hd
      rw [Bool.eq_false_iff]
      exact fun hj => Nat.lt_irrefl _ (pos_of_joins hj h)
    rw [List.nil_append, sign_of_not_joins hrest] at h
    rw [sign_of_not_joins (by simp), h]
  | cons d ds =>
    by_cases hline : c = '/' ∧ d = '/'
    · obtain ⟨rfl, rfl⟩ := hline
      change Except.ok (none, (('/' :: ds ++ rest).takeWhile (· != '\n')).length) = _ at h
      cases h
      rw [takeWhile_of_append hk]
      rfl
    by_cases hblock : c = '/' ∧ d = '*'
    · obtain ⟨rfl, rfl⟩ := hblock
      obtain ⟨n, hn, rfl, rfl⟩ := sign_block h
      have hfront : commentLength? ds = some n := commentLength?_of_append hn (by simpa using hk)
      simp [sign, hfront]
    by_cases hfallback : c = '?' ∧ d = '?' ∧ ds = []
    · obtain ⟨rfl, rfl, rfl⟩ := hfallback
      rcases sign_fallback h with rfl | ⟨rfl, rfl⟩
      · contradiction
      · rfl
    · rw [sign_append rest (fun hc hd hds => hfallback ⟨hc, hd, hds⟩)
        fun hc => ⟨fun hd => hline ⟨hc, hd⟩, fun hd => hblock ⟨hc, hd⟩⟩] at h
      exact h

/-- What a step reads within the front of a text, it reads in the front alone. -/
theorem step_of_append (h : step c (cs ++ rest) = .ok (token?, k)) (hk : k ≤ cs.length) :
    step c cs = .ok (token?, k) := by
  unfold step at h ⊢
  split at h
  case h_1 => exact h
  case h_2 =>
    split_ifs at h ⊢ with hspace hquote hdigit hpoint hname
    · cases h
      rw [takeWhile_of_append hk]
    · exact quotation_of_append h hk
    · exact number_of_append h hk
    · dsimp only at h ⊢
      split_ifs at h with hempty
      cases h
      rw [takeWhile_of_append hk] at hempty ⊢
      rw [if_neg hempty]
    · cases h
      rw [takeWhile_of_append hk]
    · exact sign_of_append h hk

end

/-- A text that is read as some tokens at the end of all text and before whatever ends it. -/
def Stands (cs : List Char) (ts : List Token) : Prop :=
  Reads true cs ts [] ∧ ∀ d rest, Breaks d → Reads true (cs ++ d :: rest) ts (d :: rest)

namespace Stands

variable {c : Char} {cs : List Char} {ts : List Token} {k : Nat}

theorem blank (hc : isSpace c = true) (h : Stands cs ts) : Stands (c :: cs) ts :=
  ⟨.blank hc h.1, fun d rest hd => .blank hc (h.2 d rest hd)⟩

theorem comment (hc : isSpace c = false) (hs : step c cs = .ok (none, k)) (hk : k < cs.length)
    (h : Stands (cs.drop k) ts) : Stands (c :: cs) ts := by
  refine ⟨.comment rfl hc hs h.1, fun d rest hd => .comment rfl hc (k := k) ?_ ?_⟩
  · obtain ⟨-, hmore | ⟨rfl, -⟩⟩ := comment_append hc hs
    · exact hmore _
    · exact absurd hk (Nat.lt_irrefl _)
  · change Reads true ((cs ++ d :: rest).drop k) _ _
    rw [List.drop_append_of_le_length hk.le]
    exact h.2 d rest hd

theorem token {t : Token} (hs : step c cs = .ok (some t, k)) (h : Stands (cs.drop k) ts) :
    Stands (c :: cs) (t :: ts) := by
  refine ⟨.token hs h.1, fun d rest hd => .token (step_append_of_breaks hs hd rest) ?_⟩
  change Reads true ((cs ++ d :: rest).drop k) _ _
  rw [List.drop_append_of_le_length (length_of_step hs)]
  exact h.2 d rest hd

theorem ne_nil (h : Stands cs ts) (hts : ts ≠ []) : cs ≠ [] := by
  rintro rfl
  cases h.1
  exact hts rfl

end Stands

/-- A step and a text that stands behind it are cut off together. -/
theorem step_take_append {c : Char} {cs first rest : List Char} {token? : Option Token} {k : Nat}
    (hs : step c cs = .ok (token?, k)) (hk : k ≤ cs.length) (hcs : cs.drop k = first ++ rest) :
    c :: cs = (c :: (cs.take k ++ first)) ++ rest ∧ (cs.take k ++ first).drop k = first ∧
      step c (cs.take k ++ first) = .ok (token?, k) := by
  have hlength : (cs.take k).length = k := List.length_take_of_le hk
  have hwhole : cs = cs.take k ++ first ++ rest := by
    rw [List.append_assoc, ← hcs, List.take_append_drop]
  refine ⟨by rw [List.cons_append, ← hwhole], List.drop_left' hlength, ?_⟩
  rw [hwhole] at hs
  refine step_of_append hs ?_
  rw [List.length_append, hlength]
  exact Nat.le_add_right _ _

/-- A text can be cut behind any of its tokens. -/
theorem Reads.exists_cut {cs : List Char} {ts us : List Token} (h : Reads true cs (ts ++ us) [])
    (hne : ts ≠ []) :
    ∃ first rest, cs = first ++ rest ∧ Stands first ts ∧ Reads true rest us [] := by
  generalize hstop : ([] : List Char) = stop at h
  generalize hall : ts ++ us = all at h
  induction h generalizing ts with
  | done => exact absurd (List.append_eq_nil_iff.mp hall).1 hne
  | @blank c cs stop all hc h ih =>
    obtain ⟨first, rest, rfl, hfirst, hrest⟩ := ih hne hstop hall
    exact ⟨c :: first, rest, rfl, hfirst.blank hc, hrest⟩
  | @comment c cs stop all k hcomments hc hs h ih =>
    obtain ⟨first, rest, hdrop, hfirst, hrest⟩ := ih hne hstop hall
    obtain ⟨hwhole, hbehind, hstep⟩ := step_take_append hs (comment_append hc hs).1 hdrop
    rw [← hbehind] at hfirst
    refine ⟨_, rest, hwhole, hfirst.comment hc hstep ?_, hrest⟩
    have hpos := List.length_pos_of_ne_nil (hfirst.ne_nil hne)
    rw [List.length_drop] at hpos
    omega
  | @token c cs stop all t k hs h ih =>
    subst hstop
    cases ts with
    | nil => contradiction
    | cons u ts =>
      cases hall
      obtain ⟨first, rest, hdrop, hfirst, hrest⟩ :
          ∃ first rest, cs.drop k = first ++ rest ∧ Stands first ts ∧ Reads true rest us [] := by
        by_cases hts : ts = []
        · subst hts
          exact ⟨[], _, rfl, ⟨.done, fun d rest hd => .done⟩, h⟩
        · exact ih hts rfl rfl
      obtain ⟨hwhole, hbehind, hstep⟩ := step_take_append hs (length_of_step hs) hdrop
      rw [← hbehind] at hfirst
      exact ⟨_, rest, hwhole, hfirst.token hstep, hrest⟩

/-- A text behind which a character adds a token of its own is read alike whatever comes after that
character. -/
theorem Reads.before {cs : List Char} {ts us : List Token} {d : Char} (h : Reads true cs ts [])
    (hd : Breaks d) (hline : d ≠ '\n') (hmore : Reads true (cs ++ [d]) us []) (hne : ts ≠ us)
    (rest : List Char) : Reads true (cs ++ d :: rest) ts (d :: rest) := by
  rcases h.extend_or_swallow hd hline with hgoes | hswallow
  · exact hgoes rest
  · exact absurd (hswallow.unique hmore) hne

end Lexer

/-- A character that is a token of its own is read behind a text that stands. -/
theorem Lexer.Stands.tokensOf_append {cs : List Char} {ts : List Token} {behind : String} {d : Char}
    {t : Token} (h : Stands cs ts) (hbehind : behind.toList = [d]) (hd : Breaks d)
    (ht : punctuation? d = some t) : tokensOf (String.ofList cs ++ behind) = .ok (ts ++ [t]) := by
  rw [tokensOf_eq_ok_iff, String.toList_append, String.toList_ofList, hbehind]
  exact (h.2 d [] hd).append (reads_punctuation ht .done)

/-- A text in three pieces with their tokens, between which braces can stand: neither of the first
two ends in a comment that would take the brace in. -/
structure Pieces (text before inner after : String) (us ms ws : List Token) : Prop where
  text_eq : text = before ++ inner ++ after
  tokens_before : tokensOf before = .ok us
  tokens_inner : tokensOf inner = .ok ms
  tokens_after : tokensOf after = .ok ws
  opening : tokensOf (before ++ "\x7b") = .ok (us ++ [.leftBrace])
  closing : tokensOf (inner ++ "\x7d") = .ok (ms ++ [.rightBrace])

namespace Pieces
open Lexer

variable {text before inner after : String} {us ms ws : List Token}

/-- Braces between the pieces stand between their tokens. -/
theorem tokensOf_braced (h : Pieces text before inner after us ms ws) :
    tokensOf (before ++ "\x7b" ++ inner ++ "\x7d" ++ after) =
      .ok (us ++ .leftBrace :: (ms ++ .rightBrace :: ws)) := by
  have hopening := tokensOf_eq_ok_iff.mp h.opening
  have hclosing := tokensOf_eq_ok_iff.mp h.closing
  rw [String.toList_append] at hopening hclosing
  have hfirst := (tokensOf_eq_ok_iff.mp h.tokens_before).before (d := '\x7b') (by decide)
    (by decide) hopening (by simp)
  have hsecond := (tokensOf_eq_ok_iff.mp h.tokens_inner).before (d := '\x7d') (by decide)
    (by decide) hclosing (by simp)
  have hafter := tokensOf_eq_ok_iff.mp h.tokens_after
  have hall := (hfirst _).append (reads_punctuation (t := .leftBrace) rfl
    ((hsecond _).append (reads_punctuation (t := .rightBrace) rfl hafter)))
  rw [tokensOf_eq_ok_iff]
  simpa using hall

/-- A text is in pieces wherever its tokens are parted. -/
theorem exists_of_tokensOf (h : tokensOf text = .ok (us ++ (ms ++ ws))) (hus : us ≠ [])
    (hms : ms ≠ []) : ∃ before inner after, Pieces text before inner after us ms ws := by
  obtain ⟨first, middle, htext, hfirst, hmiddle⟩ := (tokensOf_eq_ok_iff.mp h).exists_cut hus
  obtain ⟨second, third, rfl, hsecond, hthird⟩ := hmiddle.exists_cut hms
  refine ⟨String.ofList first, String.ofList second, String.ofList third, ?_, ?_, ?_, ?_,
    hfirst.tokensOf_append rfl (by decide) rfl, hsecond.tokensOf_append rfl (by decide) rfl⟩
  · rw [← String.toList_inj, htext]
    simp
  · rw [tokensOf_eq_ok_iff, String.toList_ofList]
    exact hfirst.1
  · rw [tokensOf_eq_ok_iff, String.toList_ofList]
    exact hsecond.1
  · rwa [tokensOf_eq_ok_iff, String.toList_ofList]

end Pieces
end Hologram.Script
