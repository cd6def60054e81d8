import Mathlib
import Hologram.Proofs.Script.Cuts
import Hologram.Proofs.Script.StatementParsing

/-! Conditions directly behind the word for the alternative. Such a condition is the only statement
of a block, so that braces around it, up to the end of its own alternatives, change nothing. -/
namespace Hologram.Script

theorem Derives.elseWord_not_mem {level : Level} {ts : List Token} {e : Expression}
    (h : Derives level ts e) : Token.elseWord ∉ ts := fun hmem => by
  have helse := h.inExpression _ hmem
  contradiction

theorem Simple.elseWord_not_mem {ts : List Token} {s : Statement} (h : Simple ts s) :
    Token.elseWord ∉ ts := by
  cases h with
  | countBefore hs ht => cases hs <;> simpa using ht.elseWord_not_mem
  | countAfter hs ht => cases hs <;> simpa using ht.elseWord_not_mem
  | assign hs ht _ hv =>
    cases hs <;> simpa using ⟨ht.elseWord_not_mem, hv.elseWord_not_mem⟩
  | eval h => exact h.elseWord_not_mem
  | returnsNothing => decide
  | returns h => simpa using h.elseWord_not_mem

theorem Heads.elseWord_not_mem {ts : List Token} {header : Parser.LoopHeader}
    (h : Heads ts header) : Token.elseWord ∉ ts := by
  cases h with
  | counting hwords hfirst hlast hstep =>
    rcases hwords with rfl | rfl <;> rcases hstep with rfl | rfl <;>
      simpa using ⟨hfirst.elseWord_not_mem, hlast.elseWord_not_mem⟩

namespace Forms

variable {part : Part} {next : Option Token} {ts us vs : List Token} {p : List Statement}

theorem block_ne_nil (h : Forms .block next ts p) : ts ≠ [] := by
  cases h with
  | single h =>
    obtain ⟨t, us, rfl, -⟩ := h.exists_cons
    exact List.cons_ne_nil t us
  | braced => exact List.cons_ne_nil _ _

/-- No statements end with the word for the alternative. -/
theorem getLast?_ne (h : Forms part next ts p) : ts.getLast? ≠ some .elseWord := by
  have hblock {all block : List Token} {next : Option Token} {q : List Statement}
      (h : Forms .block next block q) (hsuffix : block <:+ all)
      (hlast : block.getLast? ≠ some .elseWord) : all.getLast? ≠ some .elseWord := by
    obtain ⟨before, rfl⟩ := hsuffix
    rwa [List.getLast?_append_of_ne_nil before h.block_ne_nil]
  induction h with
  | skip | nil => nofun
  | ended => simp
  | last h => exact fun hlast => h.elseWord_not_mem (List.mem_of_getLast? hlast)
  | @guarded _ _ ts us _ _ _ h _ ih =>
    exact hblock h ⟨.ifWord :: .leftParen :: (ts ++ [.rightParen]), by simp⟩ ih
  | @branch _ _ ts us vs _ _ _ _ _ h' _ ih' =>
    exact hblock h' ⟨.ifWord :: .leftParen :: (ts ++ .rightParen :: (us ++ [.elseWord])), by simp⟩
      ih'
  | @loop _ ts _ _ _ hheader h ih => exact hblock h ⟨.forWord :: ts, rfl⟩ ih
  | single _ ih => exact ih
  | braced => simp [List.getLast?_cons]
  | @cons _ ts us _ _ _ _ ih ih' =>
    cases us with
    | nil => rwa [List.append_nil]
    | cons => rwa [List.getLast?_append_of_ne_nil ts (List.cons_ne_nil _ _)]

/-- What stands before some token stands before the end of a block, too. -/
theorem before_rightBrace (h : Forms part next ts p) : Forms part (some .rightBrace) ts p := by
  induction h with
  | skip => exact .skip
  | ended h => exact .ended h
  | last h => exact .last h (by simp)
  | guarded hc _ _ ih => exact .guarded hc ih (by simp)
  | branch hc h _ _ ih' => exact .branch hc h ih'
  | loop hheader _ ih => exact .loop hheader ih
  | single _ ih => exact .single ih
  | braced h => exact .braced h
  | nil => exact .nil
  | @cons next ts us p q h h' ih ih' =>
    refine .cons ?_ ih'
    cases us with
    | nil => exact ih
    | cons => exact h

/-- A word for the alternative and a condition behind it stand in one of two lists of tokens, or
the second list begins between them. -/
theorem parted {first second us vs : List Token}
    (h : first ++ second = us ++ .elseWord :: .ifWord :: vs) :
    (∃ ws, first = us ++ .elseWord :: .ifWord :: ws ∧ vs = ws ++ second) ∨
      (first = us ++ [.elseWord] ∧ second = .ifWord :: vs) ∨
      ∃ ws, us = first ++ ws ∧ second = ws ++ .elseWord :: .ifWord :: vs := by
  rcases List.append_eq_append_iff.mp h with ⟨ws, rfl, hsecond⟩ | ⟨ws, rfl, hfirst⟩
  · exact .inr (.inr ⟨ws, rfl, hsecond⟩)
  · cases ws with
    | nil => exact .inr (.inr ⟨[], by simp, by simpa using hfirst.symm⟩)
    | cons t ws =>
      cases ws with
      | nil =>
        cases hfirst
        exact .inr (.inl ⟨rfl, rfl⟩)
      | cons t' ws =>
        cases hfirst
        exact .inl ⟨ws, rfl, rfl⟩

theorem parted_of_not_mem {second us vs : List Token} (first : List Token)
    (hfirst : Token.elseWord ∉ first) (h : first ++ second = us ++ .elseWord :: .ifWord :: vs) :
    ∃ ws, us = first ++ ws ∧ second = ws ++ .elseWord :: .ifWord :: vs := by
  rcases parted h with ⟨ws, rfl, -⟩ | ⟨rfl, -⟩ | hsecond
  · simp at hfirst
  · simp at hfirst
  · exact hsecond

theorem parted_condition {level : Level} {c : Expression} {ts second us vs : List Token}
    (hc : Derives level ts c) (h : .ifWord :: .leftParen :: (ts ++ .rightParen :: second) =
      us ++ .elseWord :: .ifWord :: vs) :
    ∃ ws, us = .ifWord :: .leftParen :: (ts ++ .rightParen :: ws) ∧
      second = ws ++ .elseWord :: .ifWord :: vs := by
  obtain ⟨ws, rfl, hsecond⟩ := parted_of_not_mem (.ifWord :: .leftParen :: (ts ++ [.rightParen]))
    (by simpa using hc.elseWord_not_mem) (by simpa using h)
  exact ⟨ws, by simp, hsecond⟩

/-- A condition that stands for a block is its only statement. -/
theorem exists_of_block (h : Forms .block next (.ifWord :: ts) p) :
    ∃ s, p = [s] ∧ Forms .statement next (.ifWord :: ts) [s] := by
  generalize hall : Token.ifWord :: ts = all at h
  cases h with
  | braced => cases hall
  | single h =>
    cases h with
    | skip => cases hall
    | ended h => exact ⟨_, rfl, .ended h⟩
    | last h hnext => exact ⟨_, rfl, .last h hnext⟩
    | guarded hc h hnext => exact ⟨_, rfl, .guarded hc h hnext⟩
    | branch hc h h' => exact ⟨_, rfl, .branch hc h h'⟩
    | loop hheader h => exact ⟨_, rfl, .loop hheader h⟩

/-- A condition that stands for a block can be put into braces. -/
theorem braced_of_block (h : Forms .block next (.ifWord :: ts) p) :
    Forms .block next (.leftBrace :: (.ifWord :: ts ++ [.rightBrace])) p := by
  obtain ⟨s, rfl, hs⟩ := h.exists_of_block
  have hinside : Forms .statements (some .rightBrace) (.ifWord :: ts ++ []) ([s] ++ []) :=
    .cons hs.before_rightBrace .nil
  rw [List.append_nil] at hinside
  exact .braced hinside

/-- The statements stay the same when the condition behind `us` and the word for the alternative,
which goes on with `ms`, is put into braces. -/
structure Bracing (part : Part) (next : Option Token) (us vs : List Token) (p : List Statement)
    (ms ws : List Token) (s : Statement) : Prop where
  tokens : vs = ms ++ ws
  inner : Forms .statement (ws.head?.or next) (.ifWord :: ms) [s]
  whole : Forms part next (us ++ .elseWord :: .leftBrace :: (.ifWord :: ms ++ .rightBrace :: ws)) p

/-- Every condition directly behind the word for the alternative can be put into braces. -/
theorem exists_bracing (h : Forms part next ts p) {us vs : List Token}
    (hts : ts = us ++ .elseWord :: .ifWord :: vs) :
    ∃ ms ws s, Bracing part next us vs p ms ws s := by
  have hmem {all us vs : List Token} (hall : all = us ++ .elseWord :: .ifWord :: vs) :
      Token.elseWord ∈ all := by
    simp [hall]
  induction h generalizing us vs with
  | skip | nil => exact absurd (hmem hts) (by decide)
  | ended h => exact absurd (hmem hts) (by simpa using h.elseWord_not_mem)
  | last h hnext => exact absurd (hmem hts) h.elseWord_not_mem
  | guarded hc h hnext ih =>
    obtain ⟨middle, rfl, hblock⟩ := parted_condition hc hts
    obtain ⟨ms, ws, s, htokens, hinner, hwhole⟩ := ih hblock
    exact ⟨ms, ws, s, htokens, hinner, by simpa using guarded hc hwhole hnext⟩
  | @branch next opens ts us₀ vs₀ c p q hc h h' ih ih' =>
    obtain ⟨middle, rfl, hblocks⟩ := parted_condition hc hts
    rcases parted hblocks with ⟨more, hblock, rfl⟩ | ⟨-, helse⟩ | ⟨more, rfl, helse⟩
    · obtain ⟨ms, ws, s, rfl, hinner, hwhole⟩ := ih hblock
      refine ⟨ms, ws ++ .elseWord :: vs₀, s, by simp, by simpa using hinner, ?_⟩
      simpa using branch hc hwhole h'
    · cases helse
    · cases more with
      | nil =>
        -- The condition is the alternative of this branch itself.
        cases helse
        obtain ⟨s, rfl, hs⟩ := h'.exists_of_block
        refine ⟨vs, [], s, (List.append_nil vs).symm, by simpa using hs, ?_⟩
        simpa using branch hc h h'.braced_of_block
      | cons t more =>
        obtain ⟨rfl, hblock⟩ := List.cons.inj helse
        obtain ⟨ms, ws, s, htokens, hinner, hwhole⟩ := ih' hblock
        exact ⟨ms, ws, s, htokens, hinner, by simpa using branch hc h hwhole⟩
  | @loop next ts us₀ header p hheader h ih =>
    obtain ⟨middle, rfl, hblock⟩ := parted_of_not_mem (.forWord :: ts)
      (by simpa using hheader.elseWord_not_mem) hts
    obtain ⟨ms, ws, s, htokens, hinner, hwhole⟩ := ih hblock
    exact ⟨ms, ws, s, htokens, hinner, by simpa using loop hheader hwhole⟩
  | single h ih =>
    obtain ⟨ms, ws, s, htokens, hinner, hwhole⟩ := ih hts
    exact ⟨ms, ws, s, htokens, hinner, .single hwhole⟩
  | @braced next ts p h ih =>
    obtain ⟨middle, rfl, hinside⟩ := parted_of_not_mem [.leftBrace] (by decide) hts
    rcases parted hinside with ⟨more, hfirst, rfl⟩ | ⟨-, hclose⟩ | ⟨more, -, hclose⟩
    · obtain ⟨ms, ws, s, rfl, hinner, hwhole⟩ := ih hfirst
      refine ⟨ms, ws ++ [.rightBrace], s, by simp, by simpa using hinner, ?_⟩
      simpa using braced hwhole
    · cases hclose
    · exact absurd (hmem hclose) (by decide)
  | @cons next ts us₀ p q h h' ih ih' =>
    rcases parted hts with ⟨more, hfirst, rfl⟩ | ⟨rfl, -⟩ | ⟨more, rfl, hmore⟩
    · obtain ⟨ms, ws, s, rfl, hinner, hwhole⟩ := ih hfirst
      refine ⟨ms, ws ++ us₀, s, by simp, by simpa [Option.or_assoc] using hinner, ?_⟩
      simpa using cons hwhole h'
    · exact absurd (by simp) h.getLast?_ne
    · obtain ⟨ms, ws, s, htokens, hinner, hwhole⟩ := ih' hmore
      refine ⟨ms, ws, s, htokens, hinner, ?_⟩
      -- The first token of the rest stays, so that the first statement ends where it did.
      have hnext : us₀.head? = (more ++ .elseWord :: .leftBrace ::
          (.ifWord :: ms ++ .rightBrace :: ws)).head? := by
        rw [hmore]
        cases more <;> rfl
      rw [hnext] at h
      simpa using cons h hwhole

end Forms

namespace Parser

/-- Tokens as lexemes that all stand at the front of a text. -/
def lexemesOf (ts : List Token) : List Lexeme :=
  ts.map fun t => ⟨t, 0⟩

theorem leads_lexemesOf (ts us : List Token) : Leads (lexemesOf (ts ++ us)) ts (lexemesOf us) := by
  induction ts with
  | nil => exact .nil
  | cons t ts ih => exact .cons ih

theorem next?_lexemesOf (ts : List Token) : next? (lexemesOf ts) = ts.head? := by
  cases ts <;> rfl

theorem Yields.unique {α : Type} {n : Nat} {parse : Except CompileError (Parsed α n)} {a b : α}
    {r r' : List Lexeme} (h : Yields parse a r) (h' : Yields parse b r') : a = b ∧ r = r' := by
  obtain ⟨h₁, h⟩ := h
  obtain ⟨h₂, h'⟩ := h'
  rw [h] at h'
  cases h'
  exact ⟨rfl, rfl⟩

end Parser

/-- At the front of tokens stands at most one statement. -/
theorem Forms.statement_unique {ts us ms ws : List Token} {p q : List Statement}
    (h : Forms .statement us.head? ts p) (h' : Forms .statement ws.head? ms q)
    (hall : ts ++ us = ms ++ ws) : ts = ms ∧ us = ws := by
  obtain ⟨_, _, hread⟩ := Parser.readsPart 0 h _ _ (Parser.leads_lexemesOf ts us)
    (Parser.next?_lexemesOf us)
  obtain ⟨_, _, hread'⟩ := Parser.readsPart 0 h' _ _ (Parser.leads_lexemesOf ms ws)
    (Parser.next?_lexemesOf ws)
  rw [hall] at hread
  have hlexemes := (hread.unique hread').2
  have hrest : us = ws := by
    simpa [Parser.lexemesOf, Function.comp_def] using congrArg (List.map (·.token)) hlexemes
  subst hrest
  exact ⟨List.append_cancel_right hall, rfl⟩

namespace Procedure

/-- Braces around a condition directly behind the word for the alternative, up to the end of its own
alternatives, leave the statements of a text as they are. -/
theorem ofText_braced {text : String} {p : Procedure} {us vs : List Token}
    (h : ofText text = .ok p)
    (htokens : tokensOf text = .ok (us ++ .elseWord :: .ifWord :: vs)) :
    (∃ ms ws s, vs = ms ++ ws ∧ Forms .statement ws.head? (.ifWord :: ms) [s]) ∧
      ∀ ms ws s, vs = ms ++ ws → Forms .statement ws.head? (.ifWord :: ms) [s] →
        (∃ before inner after,
          Pieces text before inner after (us ++ [.elseWord]) (.ifWord :: ms) ws) ∧
        ∀ before inner after,
          Pieces text before inner after (us ++ [.elseWord]) (.ifWord :: ms) ws →
            ofText (before ++ "\x7b" ++ inner ++ "\x7d" ++ after) = .ok p := by
  obtain ⟨all, hall, hp⟩ := ofText_eq_ok_iff.mp h
  obtain rfl := hall.unique (tokensOf_eq_ok_iff.mp htokens)
  obtain ⟨ms, ws, s, rfl, hinner, hwhole⟩ := hp.exists_bracing rfl
  rw [Option.or_none] at hinner
  refine ⟨⟨ms, ws, s, rfl, hinner⟩, fun ms' ws' s' hvs hinner' => ?_⟩
  obtain ⟨⟨-, rfl⟩, rfl⟩ : _ ∧ _ := hinner.statement_unique hinner' (by simp [hvs])
  constructor
  · exact Pieces.exists_of_tokensOf (by simpa using htokens) (by simp) (by simp)
  · intro before inner after hpieces
    refine ofText_eq_ok_iff.mpr ⟨_, tokensOf_eq_ok_iff.mp hpieces.tokensOf_braced, ?_⟩
    simpa using hwhole

set_option maxRecDepth 20000 in
/-- The condition in braces has an alternative itself, which goes into the braces with it. -/
theorem ofText_braced_chain :
    let text := "if(1)2;else if(3)4;else 5;6"
    let us : List Token := [.ifWord, .leftParen, .int 1, .rightParen, .int 2, .semicolon]
    let ms : List Token := [.leftParen, .int 3, .rightParen, .int 4, .semicolon, .elseWord, .int 5,
      .semicolon]
    let s : Statement := .branch (.int 3) [.eval (.int 4)] [.eval (.int 5)]
    let p : Procedure := [.branch (.int 1) [.eval (.int 2)] [s], .eval (.int 6)]
    ofText text = .ok p ∧ ∃ before inner after,
      Pieces text before inner after (us ++ [.elseWord]) (.ifWord :: ms) [.int 6] ∧
        ofText (before ++ "\x7b" ++ inner ++ "\x7d" ++ after) = .ok p := by
  intro text us ms s p
  have htokens : tokensOf text = .ok (us ++ .elseWord :: .ifWord :: (ms ++ [.int 6])) := by
    dsimp only [text]
    cbv
  have hint (n : Int) : Derives (.expression false) [.int n] (.int n) := .of_primary (.int n)
  have hbody (n : Int) {next : Option Token} : Forms .block next [.int n, .semicolon]
      [.eval (.int n)] :=
    .single (.ended (.eval (hint n)))
  have hinner : Forms .statement (some (.int 6)) (.ifWord :: ms) [s] :=
    .branch (hint 3) (hbody 4) (hbody 5)
  have hwhole : Forms .statement (some (.int 6)) (us ++ .elseWord :: .ifWord :: ms)
      [.branch (.int 1) [.eval (.int 2)] [s]] :=
    .branch (hint 1) (hbody 2) (.single hinner)
  have hlast : Forms .statement none [.int 6] [.eval (.int 6)] := .last (.eval (hint 6)) (by simp)
  have hrest : Forms .statements none ([.int 6] ++ []) ([.eval (.int 6)] ++ []) := .cons hlast .nil
  have hstatements : Forms .statements none ((us ++ .elseWord :: .ifWord :: ms) ++ [.int 6])
      ([.branch (.int 1) [.eval (.int 2)] [s]] ++ [.eval (.int 6)]) :=
    .cons hwhole hrest
  have hp : ofText text = .ok p :=
    ofText_eq_ok_iff.mpr ⟨_, tokensOf_eq_ok_iff.mp htokens, hstatements⟩
  obtain ⟨⟨before, inner, after, hpieces⟩, hbraced⟩ :=
    (ofText_braced hp htokens).2 ms [.int 6] s rfl hinner
  exact ⟨hp, before, inner, after, hpieces, hbraced before inner after hpieces⟩

end Procedure
end Hologram.Script
