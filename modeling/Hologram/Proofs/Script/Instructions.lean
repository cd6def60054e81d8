import Hologram.Proofs.Script.Derivation
import Hologram.Script.Parser.Program

/-! The grammar of code that runs, and that the parser reads what it derives. -/
namespace Hologram.Script

inductive Codes : List Token → Program → Prop where
  | nil : Codes [] []
  | assign {x : String} {opens : Bool} {ts us : List Token} {e : Expression} {rest : Program}
      (he : Derives (.expression opens) ts e) (h : Codes us rest) :
      Codes (.identifier x :: .assign :: (ts ++ .semicolon :: us)) (.assign x e :: rest)
  | eval {opens : Bool} {ts us : List Token} {e : Expression} {rest : Program}
      (he : Derives (.expression opens) ts e) (h : Codes us rest) :
      Codes (ts ++ .semicolon :: us) (.eval e :: rest)
  | returns {opens : Bool} {ts us : List Token} {e : Expression} {rest : Program}
      (he : Derives (.expression opens) ts e) (h : Codes us rest) :
      Codes (.returnWord :: (ts ++ .semicolon :: us)) (.returns (some e) :: rest)
  | returnsNothing {us : List Token} {rest : Program} (h : Codes us rest) :
      Codes (.returnWord :: .semicolon :: us) (.returns none :: rest)
  | branch {ts us vs ws : List Token} {c : Expression} {satisfied unsatisfied rest : Program}
      (hc : Derives (.binary 1) ts c) (hs : Codes us satisfied) (hu : Codes vs unsatisfied)
      (h : Codes ws rest) :
      Codes (ts ++ .question :: .leftBrace :: (us ++ .rightBrace :: .colon :: .leftBrace ::
        (vs ++ .rightBrace :: .semicolon :: ws))) (.branch c satisfied unsatisfied :: rest)
  | guarded {ts us ws : List Token} {c : Expression} {satisfied rest : Program}
      (hc : Derives (.binary 1) ts c) (hs : Codes us satisfied) (h : Codes ws rest) :
      Codes (ts ++ .question :: .leftBrace :: (us ++ .rightBrace :: .semicolon :: ws))
        (.branch c satisfied [] :: rest)

namespace Parser

variable {stop : Nat}

theorem yields_instructionsEnd {n : Nat} {read : Program} {s : List Lexeme}
    (hs : endsBlock s = true) (h : s.length < n) :
    Yields (instructions stop n read s h) read.reverse s := by
  unfold instructions
  cases s with
  | nil => exact ⟨h, rfl⟩
  | cons l s =>
    obtain ⟨token, offset⟩ := l
    obtain rfl : token = .rightBrace := by simpa [endsBlock] using hs
    exact ⟨h, rfl⟩

theorem yields_instruction {n : Nat} {read p : Program} {i : Instruction String} {offset : Nat}
    {s middle r : List Lexeme} {t : Token} (hs : next? s = some t)
    (ht : t ≠ .rightBrace ∧ t ≠ .semicolon)
    (hi : Yields (instruction stop s) i (⟨.semicolon, offset⟩ :: middle))
    (hrest : ∀ n read h, Yields (instructions stop n read middle h) (read.reverse ++ p) r)
    (h : s.length < n) : Yields (instructions stop n read s h) (read.reverse ++ i :: p) r := by
  obtain ⟨h₁, hi⟩ := hi
  unfold instructions
  split
  · cases hs
  · cases hs
    exact absurd rfl ht.1
  · cases hs
    exact absurd rfl ht.2
  · rw [hi]
    have hnext := hrest n (i :: read) (by simp at h₁; omega)
    rwa [List.reverse_cons, List.append_assoc] at hnext

theorem yields_returns {e : Expression} {offset : Nat} {s r : List Lexeme} {t : Token}
    (hs : next? s = some t) (ht : t ≠ .rightBrace ∧ t ≠ .semicolon)
    (he : Yields (expression stop s) e r) :
    Yields (instruction stop (⟨.returnWord, offset⟩ :: s)) (.returns (some e)) r := by
  obtain ⟨h, he⟩ := he
  have hends : endsStatement s = false := by
    cases s with
    | nil => cases hs
    | cons l s =>
      cases hs
      simp [endsStatement, endsBlock, next?, ht]
  unfold instruction
  dsimp only
  rw [returnValue, hends, if_neg Bool.false_ne_true, he]
  exact ⟨_, rfl⟩

theorem yields_returnsNothing (offset offset' : Nat) (r : List Lexeme) :
    Yields (instruction stop (⟨.returnWord, offset⟩ :: ⟨.semicolon, offset'⟩ :: r)) (.returns none)
      (⟨.semicolon, offset'⟩ :: r) := by
  unfold instruction
  exact ⟨_, rfl⟩

theorem yields_name_before_assign (x : String) (offset offset' : Nat) (s : List Lexeme) :
    Yields (binary stop 1 (⟨.identifier x, offset⟩ :: ⟨.assign, offset'⟩ :: s)) (.name x)
      (⟨.assign, offset'⟩ :: s) := by
  have hname : Derives (.binary 1) [.identifier x] (.name x) :=
    .operand (.unary (.postfixed (.name x)))
  exact yields_of_reading (reading stop hname) (.cons .nil) ⟨nofun, nofun⟩ fun op => nofun

theorem yields_assign {x : String} {e : Expression} {offset offset' : Nat} {s r : List Lexeme}
    (he : Yields (expression stop s) e r) :
    Yields (instruction stop (⟨.identifier x, offset⟩ :: ⟨.assign, offset'⟩ :: s))
      (.assign x e) r := by
  obtain ⟨h₁, hx⟩ := @yields_name_before_assign stop x offset offset' s
  obtain ⟨h₂, he⟩ := he
  unfold instruction
  dsimp only
  rw [hx]
  dsimp only [ok_bind]
  rw [he]
  exact ⟨_, rfl⟩

theorem yields_eval {e : Expression} {s r : List Lexeme} (hs : next? s ≠ some .returnWord)
    (he : ReadsExpression stop s e r) (hr : next? r = some .semicolon) :
    Yields (instruction stop s) (.eval e) r := by
  obtain ⟨c, middle, ⟨h, hc⟩, ht, hmiddle⟩ := he
  obtain ⟨h', ht⟩ := ht s.length h
  unfold instruction
  split
  · exact absurd rfl hs
  · rw [hc]
    dsimp only [ok_bind]
    split
    · obtain rfl | ⟨_, _, ⟨⟩, -⟩ := hmiddle
      cases hr
    · obtain rfl | ⟨_, _, ⟨⟩, hbrace⟩ := hmiddle
      · cases hr
      · exact absurd rfl hbrace
    · rw [ht]
      exact ⟨_, rfl⟩

theorem yields_braced {p : Program} {offset offset' : Nat} {s r : List Lexeme}
    (h : ∀ n h, Yields (instructions stop n [] s h) p (⟨.rightBrace, offset'⟩ :: r)) :
    Yields (braced stop (⟨.leftBrace, offset⟩ :: s)) p r := by
  obtain ⟨h₁, h⟩ := h (s.length + 1) (length_lt s)
  unfold braced
  rw [expect_cons]
  dsimp only [ok_bind]
  rw [h]
  dsimp only [ok_bind]
  rw [expect_cons]
  exact ⟨_, rfl⟩

theorem yields_branch {c : Expression} {satisfied unsatisfied : Program}
    {offset offset' offset'' : Nat} {s middle last r : List Lexeme}
    (hs : next? s ≠ some .returnWord)
    (hc : Yields (binary stop 1 s) c (⟨.question, offset⟩ :: ⟨.leftBrace, offset'⟩ :: middle))
    (hsatisfied : Yields (braced stop (⟨.leftBrace, offset'⟩ :: middle)) satisfied
      (⟨.colon, offset''⟩ :: last))
    (hunsatisfied : Yields (braced stop last) unsatisfied r) :
    Yields (instruction stop s) (.branch c satisfied unsatisfied) r := by
  obtain ⟨h₁, hc⟩ := hc
  obtain ⟨h₂, hsatisfied⟩ := hsatisfied
  obtain ⟨h₃, hunsatisfied⟩ := hunsatisfied
  unfold instruction
  split
  · exact absurd rfl hs
  · rw [hc]
    dsimp only [ok_bind]
    rw [hsatisfied]
    dsimp only [ok_bind]
    rw [hunsatisfied]
    exact ⟨_, rfl⟩

theorem yields_branchGuarded {c : Expression} {satisfied : Program}
    {offset offset' : Nat} {s middle r : List Lexeme}
    (hs : next? s ≠ some .returnWord)
    (hc : Yields (binary stop 1 s) c (⟨.question, offset⟩ :: ⟨.leftBrace, offset'⟩ :: middle))
    (hsatisfied : Yields (braced stop (⟨.leftBrace, offset'⟩ :: middle)) satisfied r)
    (hr : next? r ≠ some .colon) :
    Yields (instruction stop s) (.branch c satisfied []) r := by
  obtain ⟨h₁, hc⟩ := hc
  obtain ⟨h₂, hsatisfied⟩ := hsatisfied
  unfold instruction
  split
  · exact absurd rfl hs
  · rw [hc]
    dsimp only [ok_bind]
    rw [hsatisfied]
    dsimp only [ok_bind]
    split
    · exact absurd rfl hr
    · exact ⟨_, rfl⟩

theorem ne_of_opensOperand {t u : Token} (ht : t.opensOperand = true)
    (hu : u.opensOperand = false) : t ≠ u := by
  rintro rfl
  rw [hu] at ht
  contradiction

/-- The parser reads all the code of the grammar up to the end of its block. -/
theorem readsCode {ts : List Token} {p : Program} (h : Codes ts p) {n : Nat} {read : Program}
    {s r : List Lexeme} (hs : Leads s ts r) (hr : endsBlock r = true) (hn : s.length < n) :
    Yields (instructions stop n read s hn) (read.reverse ++ p) r := by
  induction h generalizing n read s r with
  | nil =>
    cases hs
    rw [List.append_nil]
    exact yields_instructionsEnd hr hn
  | @assign x opens ts us e rest he _ ih =>
    obtain _ | _ | hs := hs
    obtain ⟨middle, hts, hs⟩ := Leads.append_iff.mp hs
    have hexpression := (reading stop he _ _ hts (.of_next? hs.next?_eq (by simp))).yields
    obtain _ | hs := hs
    exact yields_instruction (t := .identifier x) rfl ⟨nofun, nofun⟩ (yields_assign hexpression)
      (fun n read h => ih hs hr h) hn
  | eval he _ ih =>
    obtain ⟨middle, hts, hs⟩ := Leads.append_iff.mp hs
    obtain ⟨t, ht, hopens⟩ := exists_next? he hts
    have hexpression := reading stop he _ _ hts (.of_next? hs.next?_eq (by simp))
    have hinstruction := yields_eval (next?_ne he hts rfl) hexpression hs.next?_eq
    obtain _ | hs := hs
    exact yields_instruction ht ⟨ne_of_opensOperand hopens rfl, ne_of_opensOperand hopens rfl⟩
      hinstruction (fun n read h => ih hs hr h) hn
  | returns he _ ih =>
    obtain _ | hs := hs
    obtain ⟨middle, hts, hs⟩ := Leads.append_iff.mp hs
    obtain ⟨t, ht, hopens⟩ := exists_next? he hts
    have hexpression := (reading stop he _ _ hts (.of_next? hs.next?_eq (by simp))).yields
    obtain _ | hs := hs
    exact yields_instruction (t := .returnWord) rfl ⟨nofun, nofun⟩ (yields_returns ht
      ⟨ne_of_opensOperand hopens rfl, ne_of_opensOperand hopens rfl⟩ hexpression)
      (fun n read h => ih hs hr h) hn
  | returnsNothing _ ih =>
    obtain _ | _ | hs := hs
    exact yields_instruction (t := .returnWord) rfl ⟨nofun, nofun⟩ (yields_returnsNothing _ _ _)
      (fun n read h => ih hs hr h) hn
  | branch hc _ _ _ ihs ihu ih =>
    obtain ⟨middle, hts, hs⟩ := Leads.append_iff.mp hs
    obtain ⟨t, ht, hopens⟩ := exists_next? hc hts
    have hfirst := next?_ne hc hts (t := .returnWord) rfl
    obtain _ | _ | hs := hs
    obtain ⟨middle, hsatisfied, hs⟩ := Leads.append_iff.mp hs
    obtain _ | _ | _ | hs := hs
    obtain ⟨middle, hunsatisfied, hs⟩ := Leads.append_iff.mp hs
    obtain _ | _ | hs := hs
    have hcondition := yields_of_reading (reading stop hc) hts ⟨nofun, nofun⟩
      fun op => nofun
    have hsatisfied (offset : Nat) : Yields (braced stop (⟨.leftBrace, offset⟩ :: _)) _ _ :=
      yields_braced fun n h => ihs hsatisfied rfl h
    have hunsatisfied (offset : Nat) : Yields (braced stop (⟨.leftBrace, offset⟩ :: _)) _ _ :=
      yields_braced fun n h => ihu hunsatisfied rfl h
    exact yields_instruction ht ⟨ne_of_opensOperand hopens rfl, ne_of_opensOperand hopens rfl⟩
      (yields_branch hfirst hcondition (hsatisfied _) (hunsatisfied _))
      (fun n read h => ih hs hr h) hn
  | guarded hc _ _ ihs ih =>
    obtain ⟨middle, hts, hs⟩ := Leads.append_iff.mp hs
    obtain ⟨t, ht, hopens⟩ := exists_next? hc hts
    have hfirst := next?_ne hc hts (t := .returnWord) rfl
    obtain _ | _ | hs := hs
    obtain ⟨middle, hsatisfied, hs⟩ := Leads.append_iff.mp hs
    obtain _ | _ | hs := hs
    have hcondition := yields_of_reading (reading stop hc) hts ⟨nofun, nofun⟩
      fun op => nofun
    have hsatisfied (offset : Nat) : Yields (braced stop (⟨.leftBrace, offset⟩ :: _)) _ _ :=
      yields_braced fun n h => ihs hsatisfied rfl h
    exact yields_instruction ht ⟨ne_of_opensOperand hopens rfl, ne_of_opensOperand hopens rfl⟩
      (yields_branchGuarded hfirst hcondition (hsatisfied _) (by nofun))
      (fun n read h => ih hs hr h) hn

end Parser

/-- A text whose tokens are code in the grammar is accepted as that code. -/
theorem Program.ofText_of_codes {text : String} {ts : List Token} {p : Program}
    (hts : Lexer.Reads true text.toList ts []) (h : Codes ts p) : Program.ofText text = .ok p := by
  obtain ⟨tokens, htokens, rfl⟩ := Lexer.tokens_ofText_iff.mpr hts
  obtain ⟨hr, hparse⟩ :
      Parser.Yields (Parser.instructions tokens.stop (tokens.lexemes.length + 1) []
        tokens.lexemes (Parser.length_lt _)) p [] :=
    Parser.readsCode h (Parser.Leads.nil_iff.mpr rfl) rfl (Parser.length_lt _)
  unfold Program.ofText
  rw [htokens]
  dsimp only [ok_bind]
  rw [hparse]
  rfl

end Hologram.Script
