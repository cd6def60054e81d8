import Mathlib
import Hologram.Proofs.Script.Comments

/-! Reading a text line by line. A line break ends whatever stands before it, a comment included, so
a text behind a line break is read as it is on its own, only further on. -/
namespace Hologram.Script
namespace Lexer

variable {c : Char} {cs : List Char} {k : Nat}

/-- A step that reads no blanks reads alike before the end of the line and before the end of the
text. -/
theorem step_line {token? : Option Token} (h : step c cs = .ok (token?, k))
    (hc : isSpace c = false) (rest : List Char) :
    k ≤ cs.length ∧ step c (cs ++ '\n' :: rest) = .ok (token?, k) := by
  cases token? with
  | none =>
    obtain ⟨hk, hmore | ⟨-, -, hline⟩⟩ := comment_append hc h
    · exact ⟨hk, hmore _⟩
    · exact ⟨hk, hline rest⟩
  | some t => exact ⟨length_of_step h, step_append_of_breaks h (by decide) rest⟩

/-- Blanks are passed over one by one. -/
theorem scan_blank (hc : isSpace c = true) (offset : Nat) (read : List Lexeme) (cs : List Char) :
    scan offset read (c :: cs) = scan (offset + 1) read cs := by
  rw [scan, step_of_isSpace hc]
  cases cs with
  | nil => rfl
  | cons d ds =>
    dsimp only
    by_cases hd : isSpace d = true
    · rw [scan, step_of_isSpace hd, List.takeWhile_cons_of_pos hd]
      dsimp only
      rw [List.length_cons, List.drop_succ_cons, Nat.add_assoc offset 1, Nat.add_comm 1,
        ← Nat.add_assoc offset]
    · rw [List.takeWhile_cons_of_neg hd]
      rfl

theorem scan_blanks {blanks : List Char} (h : ∀ c ∈ blanks, isSpace c = true) (offset : Nat)
    (read : List Lexeme) (cs : List Char) :
    scan offset read (blanks ++ cs) = scan (offset + blanks.length) read cs := by
  induction blanks generalizing offset with
  | nil => rfl
  | cons c blanks ih =>
    obtain ⟨hc, hblanks⟩ := List.forall_mem_cons.mp h
    rw [List.cons_append, scan_blank hc, ih hblanks, List.length_cons, Nat.add_assoc,
      Nat.add_comm 1]

/-- Scanning goes on behind a line break with what was read before it. -/
theorem scan_line {offset : Nat} {read lexemes : List Lexeme} {cs : List Char}
    (h : scan offset read cs = .ok lexemes) (rest : List Char) :
    scan offset read (cs ++ '\n' :: rest) =
      scan (offset + cs.length + 1) lexemes.reverse rest := by
  fun_induction scan offset read cs with
  | case1 offset read =>
    cases h
    rw [List.reverse_reverse]
    exact scan_blank (by decide) offset read rest
  | case2 => contradiction
  | case3 offset read c cs token? further hstep read' ih =>
    have hgoes := ih h
    by_cases hc : isSpace c = true
    · rw [step_of_isSpace hc] at hstep
      cases hstep
      have hblanks : ∀ d ∈ cs.takeWhile isSpace, isSpace d = true :=
        List.all_eq_true.mp List.all_takeWhile
      have hlength :=
        congrArg List.length (List.takeWhile_append_dropWhile (p := isSpace) (l := cs))
      rw [List.length_append] at hlength
      rw [drop_takeWhile_length] at hgoes
      conv_lhs => rw [← List.takeWhile_append_dropWhile (p := isSpace) (l := cs)]
      rw [List.cons_append, scan_blank hc, List.append_assoc, scan_blanks hblanks,
        Nat.add_right_comm, hgoes, List.length_cons]
      congr 1
      omega
    · obtain ⟨hfurther, hmore⟩ := step_line hstep (by simpa using hc) rest
      rw [List.cons_append, scan, hmore]
      change scan (offset + further + 1) read' ((cs ++ '\n' :: rest).drop further) = _
      rw [List.drop_append_of_le_length hfurther, hgoes, List.length_cons, List.length_drop]
      congr 1
      omega

end Lexer

/-- A token that stands behind `n` more characters. -/
def Lexeme.moved (n : Nat) (l : Lexeme) : Lexeme :=
  ⟨l.token, l.offset + n⟩

namespace Lexer

/-- A text is read as it is further on, whatever was read before. -/
theorem scan_moved {offset : Nat} {read lexemes : List Lexeme} {cs : List Char}
    (h : scan offset read cs = .ok lexemes) (n : Nat) (before : List Lexeme) :
    scan (offset + n) (read.map (Lexeme.moved n) ++ before) cs =
      .ok (before.reverse ++ lexemes.map (Lexeme.moved n)) := by
  fun_induction scan offset read cs with
  | case1 offset read =>
    cases h
    rw [scan, List.reverse_append, List.map_reverse]
  | case2 => contradiction
  | case3 offset read c cs token? further hstep read' ih =>
    have hgoes := ih h
    rw [Nat.add_right_comm (offset + further), Nat.add_right_comm offset] at hgoes
    rw [scan, hstep]
    cases token? with
    | none => exact hgoes
    | some t => exact hgoes

end Lexer

namespace TokenList

/-- Two texts with a line break between them are read as the tokens of the first and behind them
those of the second, each of which stands as many characters further on as the first text and the
line break have. -/
theorem ofText_line {a b : String} {s t : TokenList} (ha : ofText a = .ok s)
    (hb : ofText b = .ok t) : ofText (a ++ "\n" ++ b) =
      .ok ⟨s.lexemes ++ t.lexemes.map (Lexeme.moved (a.length + 1)), a.length + 1 + b.length⟩ := by
  obtain ⟨first, hfirst, hs⟩ := bind_eq_ok.mp ha
  obtain ⟨second, hsecond, ht⟩ := bind_eq_ok.mp hb
  rw [← pure_eq_ok.mp hs, ← pure_eq_ok.mp ht]
  have htext : (a ++ "\n" ++ b).toList = a.toList ++ '\n' :: b.toList := by simp
  have hread : Lexer.scan 0 [] (a ++ "\n" ++ b).toList =
      .ok (first ++ second.map (Lexeme.moved (a.length + 1))) := by
    rw [htext, Lexer.scan_line hfirst, String.length_toList]
    have hmoved := Lexer.scan_moved hsecond (a.length + 1) first.reverse
    rwa [List.reverse_reverse, ← Nat.add_assoc] at hmoved
  rw [ofText, hread]
  change Except.ok (TokenList.mk _ (a ++ "\n" ++ b).toList.length) = _
  rw [htext, List.length_append, List.length_cons, String.length_toList, String.length_toList,
    Nat.add_right_comm, Nat.add_assoc]

set_option maxRecDepth 20000 in
/-- A comment that runs to the end of the first text ends with its line. -/
theorem ofText_line_comment :
    let s : TokenList := ⟨[⟨.identifier "é", 0⟩, ⟨.question, 1⟩], 6⟩
    let t : TokenList := ⟨[⟨.int 5, 1⟩], 2⟩
    ofText "é?//ü*" = .ok s ∧ ofText " 5" = .ok t ∧ ofText ("é?//ü*" ++ "\n" ++ " 5") =
      .ok ⟨[⟨.identifier "é", 0⟩, ⟨.question, 1⟩, ⟨.int 5, 8⟩], 9⟩ := by
  intro s t
  have hs : ofText "é?//ü*" = .ok s := by cbv
  have ht : ofText " 5" = .ok t := by cbv
  exact ⟨hs, ht, ofText_line hs ht⟩

end TokenList
end Hologram.Script
