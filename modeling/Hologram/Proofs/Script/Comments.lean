import Hologram.Proofs.Script.Spelling

/-! Texts with comments in them. What a character that ends words, numbers and signs begins is read
on its own behind such a text, unless the text ends in a comment that the end of the line would end.
Comments and strings hide their characters from the tokens. -/
namespace Hologram.Script
namespace Lexer

/-- A character that goes on with no word, no number and no sign. -/
def Breaks (d : Char) : Prop :=
  isNamePart d = false ∧ d ≠ '-' ∧ d ∉ joined

instance (d : Char) : Decidable (Breaks d) :=
  inferInstanceAs (Decidable (_ ∧ _))

namespace Breaks

variable {d : Char} {cs : List Char}

theorem joins_eq_false (hd : Breaks d) (c : Char) : joins c d = false := by
  cases hj : joins c d with
  | false => rfl
  | true =>
    rcases mem_of_joins hj with ⟨-, hminus⟩ | hmem
    · exact absurd hminus hd.2.1
    · exact absurd hmem hd.2.2

theorem separate (hd : Breaks d) (cs : List Char) : Separate (d :: cs) :=
  .cons hd.1 cs

end Breaks

section
variable {c d : Char} {cs : List Char} {t : Token} {k : Nat}

theorem sign_append_of_breaks (h : sign c cs = .ok (some t, k)) (hd : Breaks d)
    (rest : List Char) : sign c (cs ++ d :: rest) = .ok (some t, k) := by
  cases cs with
  | nil =>
    have halone (e : Char) (he : (d :: rest).head? = some e) : joins c e = false := by
      cases he
      exact hd.joins_eq_false c
    have hlast (e : Char) (he : ([] : List Char).head? = some e) : joins c e = false := by
      cases he
    rw [sign_of_not_joins hlast] at h
    rwa [List.nil_append, sign_of_not_joins halone]
  | cons e es =>
    by_cases hfallback : c = '?' ∧ e = '?' ∧ es = []
    · -- Only a fallback looks at a third character.
      obtain ⟨rfl, rfl, rfl⟩ := hfallback
      have hassign : d ≠ '=' := by
        rintro rfl
        exact hd.2.2 (by decide)
      cases h
      unfold sign
      simp [hassign]
    · rw [sign_append (d :: rest) (fun hc he hes => hfallback ⟨hc, he, hes⟩), h]
      rintro rfl
      constructor
      · rintro rfl
        cases h
      · rintro rfl
        exact sign_comment_ne es h

theorem isSign_eq_false_of_step (h : step c cs = .ok (some t, k)) (hc : c ∉ signs) :
    t.isSign = false := by
  generalize ht : some t = token? at h
  cases shape_of_step h with
  | @punctuation u hp =>
    cases ht
    have hnone : ∀ entry ∈ punctuations, entry.2.isSign = false := by decide
    exact hnone _ (mem_punctuations hp)
  | blank => contradiction
  | quotation | fraction =>
    cases ht
    rfl
  | number _ hn =>
    subst ht
    obtain ⟨-, -, ⟨n, hn, -⟩ | ⟨x, hx⟩⟩ := number_of_ok hn
    · cases hn
      rfl
    · cases hx
      rfl
  | word =>
    cases ht
    have hnone (word : List Char) : ∀ u ∈ Token.ofWords word, u.isSign = false := by
      simp [Token.ofWords, Token.isSign]
    exact hnone _ _ (Token.ofWord_mem _)
  | sign hs => exact absurd (mem_signs hs) hc

/-- What a step reads does not go on behind a character that ends it. -/
theorem step_append_of_breaks (h : step c cs = .ok (some t, k)) (hd : Breaks d)
    (rest : List Char) : step c (cs ++ d :: rest) = .ok (some t, k) := by
  by_cases hc : c ∈ signs
  · rw [step_of_mem hc] at h ⊢
    exact sign_append_of_breaks h hd rest
  · refine step_append h (hd.separate rest) fun ht => ?_
    rw [isSign_eq_false_of_step h hc] at ht
    contradiction

end

theorem commentLength?_append {cs : List Char} {n : Nat} (h : commentLength? cs = some n)
    (rest : List Char) : commentLength? (cs ++ rest) = some n ∧ n ≤ cs.length := by
  fun_induction commentLength? cs generalizing n with
  | case1 cs =>
    cases h
    exact ⟨rfl, by simp⟩
  | case2 c cs hc ih =>
    obtain ⟨m, hm, rfl⟩ := Option.map_eq_some_iff.mp h
    obtain ⟨hmore, hlength⟩ := ih hm
    refine ⟨?_, by simpa using hlength⟩
    rw [List.cons_append, commentLength?, hmore]
    · rfl
    · intro r hc' hcs
      obtain rfl := hc'
      cases cs with
      | nil =>
        cases hm
      | cons d cs =>
        cases hcs
        exact hc _ rfl rfl
  | case3 => contradiction

/-- A step that is no blank and leaves no token reads a comment. -/
theorem sign_of_comment {c : Char} {cs : List Char} {k : Nat} (hc : isSpace c = false)
    (hs : step c cs = .ok (none, k)) : sign c cs = .ok (none, k) := by
  cases shape_of_step hs with
  | blank h => rw [hc] at h; contradiction
  | number _ h =>
    unfold number at h
    dsimp only at h
    split_ifs at h <;> cases h
  | sign h => exact h

/-- Where no slash is, no comment is. -/
theorem Reads.without_comments {cs rest : List Char} {ts : List Token} (h : Reads true cs ts rest)
    (hcs : '/' ∉ cs) : Reads false cs ts rest := by
  induction h with
  | done => exact .done
  | blank hc _ ih => exact .blank hc (ih fun hmem => hcs (.tail _ hmem))
  | comment _ hc hs =>
    obtain rfl := eq_slash_of_sign (sign_of_comment hc hs)
    exact absurd (.head _) hcs
  | token hs _ ih => exact .token hs (ih fun hmem => hcs (.tail _ (List.mem_of_mem_drop hmem)))

/-- A comment is passed over alike with more after it, or it runs to the end of the line and takes
what comes after as well, up to the next line. -/
theorem comment_append {c : Char} {cs : List Char} {k : Nat} (hc : isSpace c = false)
    (hs : step c cs = .ok (none, k)) : k ≤ cs.length ∧
      ((∀ rest, step c (cs ++ rest) = .ok (none, k)) ∨
        (k = cs.length ∧ (∀ d, d ≠ '\n' → step c (cs ++ [d]) = .ok (none, k + 1)) ∧
          ∀ rest, step c (cs ++ '\n' :: rest) = .ok (none, k))) := by
  have hsign := sign_of_comment hc hs
  obtain rfl := eq_slash_of_sign hsign
  cases cs with
  | nil => cases hsign
  | cons d cs =>
    by_cases hline : d = '/'
    · subst hline
      change Except.ok (none, (('/' :: cs).takeWhile (· != '\n')).length) = .ok (none, k) at hsign
      obtain rfl : (('/' :: cs).takeWhile (· != '\n')).length = k := by
        cases hsign
        rfl
      refine ⟨length_takeWhile_le _ _, ?_⟩
      by_cases hend : (('/' :: cs).takeWhile (· != '\n')).length = ('/' :: cs).length
      · have hmore (rest : List Char) : step '/' ('/' :: cs ++ rest) =
            .ok (none, ('/' :: cs).length + (rest.takeWhile (· != '\n')).length) := by
          change Except.ok (none, (('/' :: cs ++ rest).takeWhile (· != '\n')).length) = _
          rw [List.takeWhile_append, if_pos hend, List.length_append]
        refine .inr ⟨hend, fun d hd => ?_, fun rest => ?_⟩
        · rw [hmore, hend]
          simp [hd]
        · rw [hmore, hend]
          simp
      · refine .inl fun rest => ?_
        change Except.ok (none, (('/' :: cs ++ rest).takeWhile (· != '\n')).length) = _
        rw [List.takeWhile_append, if_neg hend]
    · by_cases hstar : d = '*'
      · subst hstar
        cases hlength : commentLength? cs with
        | none => simp [sign, hlength] at hsign
        | some n =>
          obtain rfl : n + 1 = k := by simpa [sign, hlength] using hsign
          refine ⟨Nat.succ_le_succ (commentLength?_append hlength []).2, .inl fun rest => ?_⟩
          change sign '/' ('*' :: (cs ++ rest)) = _
          simp [sign, (commentLength?_append hlength rest).1]
      · unfold sign at hsign
        split at hsign <;> simp_all

/-- A text that is read to its end is read alike before a character that ends what stands before it,
or its last comment takes that character in as well. -/
theorem Reads.extend_or_swallow {cs : List Char} {ts : List Token} {d : Char}
    (h : Reads true cs ts []) (hd : Breaks d) (hline : d ≠ '\n') :
    (∀ rest, Reads true (cs ++ d :: rest) ts (d :: rest)) ∨ Reads true (cs ++ [d]) ts [] := by
  generalize hstop : ([] : List Char) = stop at h
  induction h with
  | done => exact .inl fun rest => hstop ▸ .done
  | blank hc _ ih => exact (ih hstop).imp (fun hmore rest => .blank hc (hmore rest)) (.blank hc)
  | @comment c cs stop ts k hcomments hc hs h ih =>
    subst hstop
    obtain ⟨hk, hmore | ⟨rfl, hswallow, -⟩⟩ := comment_append hc hs
    · refine (ih rfl).imp (fun ih rest => ?_) fun ih => ?_ <;> rw [List.cons_append]
      · refine .comment hcomments hc (hmore _) ?_
        rw [List.drop_append_of_le_length hk]
        exact ih rest
      · refine .comment hcomments hc (hmore _) ?_
        rwa [List.drop_append_of_le_length hk]
    · refine .inr (.comment hcomments hc (hswallow d hline) ?_)
      rw [List.drop_length] at h
      cases h
      rw [List.drop_eq_nil_of_le (by simp)]
      exact .done
  | @token c cs stop ts t k hs h ih =>
    subst hstop
    refine (ih rfl).imp (fun ih rest => ?_) fun ih => ?_ <;> rw [List.cons_append]
    · refine .token (step_append_of_breaks hs hd rest) ?_
      rw [List.drop_append_of_le_length (length_of_step hs)]
      exact ih rest
    · refine .token (step_append_of_breaks hs hd []) ?_
      rwa [List.drop_append_of_le_length (length_of_step hs)]

/-- The characters in the comments and in the strings in double quotes of a text, up to the first
place that is no token. -/
def hidden : List Char → List Char
  | [] => []
  | c :: cs => match step c cs with
    | .error _ => []
    | .ok (token?, k) =>
      (if c = '"' ∨ (c = '/' ∧ token? = none) then cs.take k else []) ++ hidden (cs.drop k)
  termination_by cs => cs.length
  decreasing_by simp only [List.length_drop, List.length_cons]; omega

theorem hidden_of_step {c : Char} {cs : List Char} {token? : Option Token} {k : Nat}
    (hs : step c cs = .ok (token?, k)) : hidden (c :: cs) =
      (if c = '"' ∨ (c = '/' ∧ token? = none) then cs.take k else []) ++ hidden (cs.drop k) := by
  rw [hidden, hs]

/-- Blanks hide nothing. -/
theorem hidden_of_isSpace {c : Char} (hc : isSpace c = true) (cs : List Char) :
    hidden (c :: cs) = hidden cs := by
  have hrun {d : Char} (hd : isSpace d = true) (ds : List Char) :
      hidden (d :: ds) = hidden (ds.dropWhile isSpace) := by
    have hne : ¬ (d = '"' ∨ (d = '/' ∧ (none : Option Token) = none)) := by
      rintro (rfl | ⟨rfl, -⟩) <;> contradiction
    rw [hidden_of_step (step_of_isSpace hd ds), if_neg hne, List.nil_append, drop_takeWhile_length]
  rw [hrun hc]
  cases cs with
  | nil => rfl
  | cons d ds =>
    by_cases hd : isSpace d = true
    · rw [List.dropWhile_cons_of_pos hd, hrun hd]
    · rw [List.dropWhile_cons_of_neg hd]

/-- What the rest of a text hides is hidden in the text. -/
theorem Reads.hidden_subset {comments : Bool} {cs rest : List Char} {ts : List Token}
    (h : Reads comments cs ts rest) : hidden rest ⊆ hidden cs := by
  induction h with
  | done => exact List.Subset.refl _
  | blank hc _ ih => rwa [hidden_of_isSpace hc]
  | comment _ _ hs _ ih | token hs _ ih =>
    rw [hidden_of_step hs]
    exact List.subset_append_of_subset_right _ ih

/-- Where no comment and no double quote is, nothing is hidden. -/
theorem Reads.hidden_eq_nil {cs : List Char} {ts : List Token} (h : Reads false cs ts [])
    (hcs : '"' ∉ cs) : hidden cs = [] := by
  generalize hstop : ([] : List Char) = stop at h ⊢
  induction h with
  | done => rw [← hstop, hidden]
  | blank hc _ ih =>
    rw [hidden_of_isSpace hc]
    exact ih (fun hmem => hcs (.tail _ hmem)) hstop
  | comment => contradiction
  | @token c cs rest ts t k hs _ ih =>
    have hne : ¬ (c = '"' ∨ (c = '/' ∧ some t = none)) := by
      rintro (rfl | ⟨-, h⟩)
      · exact hcs (.head _)
      · cases h
    rw [hidden_of_step hs, if_neg hne, List.nil_append]
    exact ih (fun hmem => hcs (.tail _ (List.mem_of_mem_drop hmem))) hstop

end Lexer
end Hologram.Script
