import Hologram.Proofs.Outcome
import Hologram.Proofs.Script.Parsing

/-! Whatever the parser reads is in the grammar, so that the grammar is all that it reads. -/
namespace Hologram.Script
namespace Parser

variable {stop : Nat}

theorem eq_cons_of_next? {t : Token} {s : List Lexeme} (h : next? s = some t) :
    ∃ offset r, s = ⟨t, offset⟩ :: r ∧ r.length < s.length := by
  cases s with
  | nil => cases h
  | cons l s =>
    cases h
    exact ⟨l.offset, s, rfl, length_lt s⟩

theorem leads_of_expect {t : Token} {what : String} {s : List Lexeme}
    {r : { r : List Lexeme // r.length < s.length }} (h : expect stop t what s = .ok r) :
    Leads s [t] r.val := by
  cases s with
  | nil => cases h
  | cons l s =>
    unfold expect at h
    dsimp only at h
    split_ifs at h with ht
    cases h
    subst ht
    exact .cons .nil

theorem position_of_ok {before : Option Accessor} {s : List Lexeme}
    {p : Parsed (Option Accessor) (s.length + 1)}
    (h : placeholderAccessor stop before s = .ok p) :
    ∃ ts, Leads s ts p.rest ∧ Position before ts p.value := by
  unfold placeholderAccessor at h
  split at h
  · obtain ⟨⟨r, hr⟩, hexpect, h⟩ := bind_eq_ok.mp h
    cases pure_eq_ok.mp h
    exact ⟨_, .cons (.cons (leads_of_expect hexpect)), .index _⟩
  · obtain ⟨⟨r, hr⟩, hexpect, h⟩ := bind_eq_ok.mp h
    cases pure_eq_ok.mp h
    exact ⟨_, .cons (.cons (leads_of_expect hexpect)), .named _⟩
  · cases h
  · cases h
    exact ⟨[], .nil, .missing _⟩

theorem adjustment_of_ok {s : List Lexeme}
    {p : Parsed (Option (BinaryOperator × Constant)) (s.length + 1)}
    (h : placeholderAdjustment s = .ok p) : ∃ ts, Leads s ts p.rest ∧ Adjustment ts p.value := by
  unfold placeholderAdjustment at h
  split at h
  · split_ifs at h with hop
    split at h <;> cases h
    · exact ⟨_, .cons (.cons .nil), .int hop _⟩
    · exact ⟨_, .cons (.cons .nil), .float hop _⟩
  · cases h
  · cases h
    exact ⟨[], .nil, .missing⟩

theorem placeholder_of_ok {offset : Nat} {s : List Lexeme} {p : Parsed Placeholder s.length}
    (h : placeholder stop s = .ok p) :
    ∃ ts, Leads (⟨.dollar, offset⟩ :: s) ts p.rest ∧
      Derives .primary ts (.placeholder p.value) := by
  unfold placeholder at h
  obtain ⟨⟨r, hr⟩, hopen, h⟩ := bind_eq_ok.mp h
  dsimp only at h
  split at h
  · obtain ⟨⟨accessor, r₁, h₁⟩, hposition, h⟩ := bind_eq_ok.mp h
    obtain ⟨⟨adjustment, r₂, h₂⟩, hadjustment, h⟩ := bind_eq_ok.mp h
    obtain ⟨⟨r₃, h₃⟩, hclose, h⟩ := bind_eq_ok.mp h
    cases pure_eq_ok.mp h
    obtain ⟨ts, hts, hp⟩ := position_of_ok hposition
    obtain ⟨us, hus, ha⟩ := adjustment_of_ok hadjustment
    refine ⟨_, ?_, .placeholder hp ha⟩
    exact .cons ((leads_of_expect hopen).append
      (.cons ((hts.append hus).append (leads_of_expect hclose))))
  · cases h

mutual

theorem expression_of_ok {s : List Lexeme} {p : Parsed Expression s.length}
    (h : expression stop s = .ok p) : ∃ opens ts, Leads s ts p.rest ∧
      Derives (.expression opens) ts p.value ∧ (opens = true → next? p.rest ≠ some .colon) := by
  unfold expression at h
  obtain ⟨⟨c, r, hr⟩, hc, h⟩ := bind_eq_ok.mp h
  obtain ⟨ts, hts, hc, -⟩ := binary_of_ok hc
  obtain ⟨opens, us, hus, he, hcolon⟩ := conditionalTail_of_ok hc h
  exact ⟨opens, ts ++ us, hts.append hus, he, hcolon⟩
  termination_by s.length * 8 + 5
  decreasing_by all_goals omega

theorem conditionalTail_of_ok {n : Nat} {c : Expression} {ts : List Token} {s : List Lexeme}
    {hs : s.length < n} {p : Parsed Expression n} (hc : Derives (.binary 1) ts c)
    (h : conditionalTail stop n c s hs = .ok p) : ∃ opens us, Leads s us p.rest ∧
      Derives (.expression opens) (ts ++ us) p.value ∧
      (opens = true → next? p.rest ≠ some .colon) := by
  unfold conditionalTail at h
  by_cases hquestion : next? s = some .question
  · obtain ⟨offset, s, rfl, hlt⟩ := eq_cons_of_next? hquestion
    obtain ⟨⟨satisfied, r, hr⟩, hsatisfied, h⟩ := bind_eq_ok.mp h
    obtain ⟨opens, us, hus, hs, hopens⟩ := expression_of_ok hsatisfied
    by_cases hcolon : next? r = some .colon
    · obtain ⟨offset', r, rfl, hlt'⟩ := eq_cons_of_next? hcolon
      obtain ⟨⟨unsatisfied, r', hr'⟩, hunsatisfied, h⟩ := bind_eq_ok.mp h
      obtain ⟨opens', vs, hvs, hu, hopens'⟩ := expression_of_ok hunsatisfied
      cases pure_eq_ok.mp h
      cases opens with
      | true => exact absurd rfl (hopens rfl)
      | false =>
        exact ⟨opens', _, .cons (hus.append (.cons hvs)), .conditional hc hs hu, hopens'⟩
    · dsimp only at h
      split at h
      · exact absurd rfl hcolon
      · cases pure_eq_ok.mp h
        exact ⟨true, _, .cons hus, .guarded hc hs, fun _ => hcolon⟩
  · split at h
    · exact absurd rfl hquestion
    · cases h
      refine ⟨false, [], .nil, ?_, nofun⟩
      rw [List.append_nil]
      exact .condition hc
  termination_by s.length * 8
  decreasing_by all_goals omega

theorem binary_of_ok {k : Nat} {s : List Lexeme} {p : Parsed Expression s.length}
    (h : binary stop k s = .ok p) : ∃ ts, Leads s ts p.rest ∧ Derives (.binary k) ts p.value ∧
      ∀ op, next? p.rest = some (.operator op) → op.precedence < k := by
  unfold binary at h
  obtain ⟨⟨first, r, hr⟩, hfirst, h⟩ := bind_eq_ok.mp h
  obtain ⟨ts, hts, hfirst⟩ := unary_of_ok hfirst
  obtain ⟨us, hus, he⟩ := binaryTail_of_ok (.operand hfirst) (fun _ _ => .operand hfirst) h
  exact ⟨ts ++ us, hts.append hus, he⟩
  termination_by s.length * 8 + 4
  decreasing_by all_goals omega

/-- The operands read so far hold together for the operator that comes next. -/
theorem binaryTail_of_ok {n k : Nat} {first : Expression} {ts : List Token} {s : List Lexeme}
    {hs : s.length < n} {p : Parsed Expression n} (hk : Derives (.binary k) ts first)
    (hnext : ∀ op, next? s = some (.operator op) → Derives (.binary op.precedence) ts first)
    (h : binaryTail stop n k first s hs = .ok p) : ∃ us, Leads s us p.rest ∧
      Derives (.binary k) (ts ++ us) p.value ∧
      ∀ op, next? p.rest = some (.operator op) → op.precedence < k := by
  unfold binaryTail at h
  by_cases hoperator : ∃ op, next? s = some (.operator op)
  · obtain ⟨op, hoperator⟩ := hoperator
    obtain ⟨offset, s, rfl, hlt⟩ := eq_cons_of_next? hoperator
    dsimp only at h
    split_ifs at h with hle
    · obtain ⟨⟨second, r, hr⟩, hsecond, h⟩ := bind_eq_ok.mp h
      obtain ⟨us, hus, hsecond, hop⟩ := binary_of_ok hsecond
      have hjoined : Derives (.binary op.precedence) (ts ++ .operator op :: us)
          (.binary op first second) := .operator (Nat.le_refl _) (hnext op rfl) hsecond
      obtain ⟨vs, hvs, he⟩ := binaryTail_of_ok (hjoined.binary_mono hle)
        (fun op' h' => hjoined.binary_mono (Nat.le_of_lt_succ (hop op' h'))) h
      refine ⟨.operator op :: (us ++ vs), .cons (hus.append hvs), ?_⟩
      rwa [List.append_assoc, List.cons_append] at he
    · cases h
      refine ⟨[], .nil, by rwa [List.append_nil], fun op' h' => ?_⟩
      cases h'
      exact Nat.lt_of_not_le hle
  · split at h
    · exact absurd ⟨_, rfl⟩ hoperator
    · cases h
      exact ⟨[], .nil, by rwa [List.append_nil], fun op h' => absurd ⟨op, h'⟩ hoperator⟩
  termination_by s.length * 8
  decreasing_by all_goals omega

theorem unary_of_ok {s : List Lexeme} {p : Parsed Expression s.length}
    (h : unary stop s = .ok p) : ∃ ts, Leads s ts p.rest ∧ Derives .unary ts p.value := by
  unfold unary at h
  by_cases hbang : next? s = some .bang
  · obtain ⟨offset, s, rfl, hlt⟩ := eq_cons_of_next? hbang
    obtain ⟨⟨operand, r, hr⟩, hoperand, h⟩ := bind_eq_ok.mp h
    obtain ⟨ts, hts, he⟩ := unary_of_ok hoperand
    cases pure_eq_ok.mp h
    exact ⟨_, .cons hts, .not he⟩
  by_cases hminus : next? s = some (.operator .subtract)
  · obtain ⟨offset, s, rfl, hlt⟩ := eq_cons_of_next? hminus
    obtain ⟨⟨operand, r, hr⟩, hoperand, h⟩ := bind_eq_ok.mp h
    obtain ⟨ts, hts, he⟩ := unary_of_ok hoperand
    cases pure_eq_ok.mp h
    exact ⟨_, .cons hts, .negate he⟩
  split at h
  · exact absurd rfl hbang
  · exact absurd rfl hminus
  · obtain ⟨ts, hts, he⟩ := postfixed_of_ok h
    exact ⟨ts, hts, .unary he⟩
  termination_by s.length * 8 + 3
  decreasing_by all_goals omega

theorem postfixed_of_ok {s : List Lexeme} {p : Parsed Expression s.length}
    (h : postfixed stop s = .ok p) : ∃ ts, Leads s ts p.rest ∧ Derives .postfixed ts p.value := by
  unfold postfixed at h
  obtain ⟨⟨target, r, hr⟩, htarget, h⟩ := bind_eq_ok.mp h
  obtain ⟨ts, hts, htarget⟩ := primary_of_ok htarget
  obtain ⟨us, hus, he⟩ := indexTail_of_ok (.postfixed htarget) h
  exact ⟨ts ++ us, hts.append hus, he⟩
  termination_by s.length * 8 + 2
  decreasing_by all_goals omega

theorem indexTail_of_ok {n : Nat} {target : Expression} {ts : List Token} {s : List Lexeme}
    {hs : s.length < n} {p : Parsed Expression n} (ht : Derives .postfixed ts target)
    (h : indexTail stop n target s hs = .ok p) : ∃ us, Leads s us p.rest ∧
      Derives .postfixed (ts ++ us) p.value := by
  unfold indexTail at h
  by_cases hopen : next? s = some .leftBracket
  · obtain ⟨offset, s, rfl, hlt⟩ := eq_cons_of_next? hopen
    obtain ⟨⟨position, r, hr⟩, hposition, h⟩ := bind_eq_ok.mp h
    obtain ⟨⟨r', hr'⟩, hclose, h⟩ := bind_eq_ok.mp h
    obtain ⟨opens, us, hus, hp, -⟩ := expression_of_ok hposition
    obtain ⟨vs, hvs, he⟩ := indexTail_of_ok (.index ht hp) h
    refine ⟨_, .cons ((hus.append (leads_of_expect hclose)).append hvs), ?_⟩
    rwa [List.append_assoc, List.cons_append] at he
  · split at h
    · exact absurd rfl hopen
    · cases h
      exact ⟨[], .nil, by rwa [List.append_nil]⟩
  termination_by s.length * 8
  decreasing_by all_goals omega

theorem primary_of_ok {s : List Lexeme} {p : Parsed Expression s.length}
    (h : primary stop s = .ok p) : ∃ ts, Leads s ts p.rest ∧ Derives .primary ts p.value := by
  cases hnext : next? s with
  | none =>
    obtain rfl : s = [] := by simpa [next?] using hnext
    unfold primary at h
    cases h
  | some t =>
    obtain ⟨offset, s, rfl, hlt⟩ := eq_cons_of_next? hnext
    unfold primary at h
    cases t with
    | int =>
      cases h
      exact ⟨_, .cons .nil, .int _⟩
    | float =>
      cases h
      exact ⟨_, .cons .nil, .float _⟩
    | bool =>
      cases h
      exact ⟨_, .cons .nil, .bool _⟩
    | string =>
      cases h
      exact ⟨_, .cons .nil, .string _⟩
    | identifier x =>
      by_cases hcall : next? s = some .leftParen
      · obtain ⟨offset', s, rfl, hlt'⟩ := eq_cons_of_next? hcall
        obtain ⟨⟨args, r, hr⟩, hargs, h⟩ := bind_eq_ok.mp h
        cases pure_eq_ok.mp h
        obtain ⟨ts, hts, he⟩ := arguments_of_ok (.call x) hargs
        exact ⟨_, .cons (.cons hts), he⟩
      · obtain ⟨hshorter, hname⟩ :
            Yields (primary stop (⟨.identifier x, offset⟩ :: s)) (.name x) s :=
          yields_name hcall
        unfold primary at hname
        cases hname.symm.trans h
        exact ⟨_, .cons .nil, .name x⟩
    | leftParen =>
      obtain ⟨⟨inner, r, hr⟩, hinner, h⟩ := bind_eq_ok.mp h
      obtain ⟨⟨r', hr'⟩, hclose, h⟩ := bind_eq_ok.mp h
      cases pure_eq_ok.mp h
      obtain ⟨opens, ts, hts, he, -⟩ := expression_of_ok hinner
      exact ⟨_, .cons (hts.append (leads_of_expect hclose)), .group he⟩
    | dollar =>
      obtain ⟨⟨inner, r, hr⟩, hinner, h⟩ := bind_eq_ok.mp h
      cases pure_eq_ok.mp h
      exact placeholder_of_ok hinner
    | _ => cases h
  termination_by s.length * 8 + 1
  decreasing_by all_goals omega

theorem arguments_of_ok {n : Nat} {f : String} {read : List Expression} {ts : List Token}
    {s : List Lexeme} {hs : s.length < n} {p : Parsed (List Expression) n}
    (hc : Derives .opened ts (.call f read.reverse)) (h : arguments stop n read s hs = .ok p) :
    ∃ us, Leads s us p.rest ∧ Derives .primary (ts ++ us) (.call f p.value) := by
  unfold arguments at h
  by_cases hempty : next? s = some .rightParen
  · obtain ⟨offset, s, rfl, hlt⟩ := eq_cons_of_next? hempty
    cases h
    exact ⟨_, .cons .nil, .closeOpened hc⟩
  · split at h
    · exact absurd rfl hempty
    obtain ⟨⟨argument, r, hr⟩, hargument, h⟩ := bind_eq_ok.mp h
    obtain ⟨opens, us, hus, ha, -⟩ := expression_of_ok hargument
    have hfilled : Derives .filled (ts ++ us) (.call f (argument :: read).reverse) := by
      rw [List.reverse_cons]
      exact .argument hc ha
    by_cases hcomma : next? r = some .comma
    · obtain ⟨offset, r, rfl, hlt⟩ := eq_cons_of_next? hcomma
      obtain ⟨vs, hvs, he⟩ := arguments_of_ok (.comma hfilled) h
      refine ⟨_, hus.append (.cons hvs), ?_⟩
      rwa [List.append_assoc, List.append_assoc] at he
    · dsimp only at h
      split at h
      · exact absurd rfl hcomma
      obtain ⟨⟨r', hr'⟩, hclose, h⟩ := bind_eq_ok.mp h
      cases pure_eq_ok.mp h
      refine ⟨_, hus.append (leads_of_expect hclose), ?_⟩
      have he := Derives.closeFilled hfilled
      rwa [List.append_assoc] at he
  termination_by s.length * 8 + 6
  decreasing_by all_goals omega

end

end Parser

namespace Expression

theorem ofTokens_eq_ok_iff {tokens : TokenList} {e : Expression} :
    ofTokens tokens = .ok e ↔
      ∃ opens, Derives (.expression opens) (tokens.lexemes.map (·.token)) e := by
  constructor
  · intro h
    obtain ⟨⟨e', r, hr⟩, hparse, h⟩ := bind_eq_ok.mp h
    dsimp only at h
    split at h
    · cases pure_eq_ok.mp h
      obtain ⟨opens, ts, hts, he, -⟩ := Parser.expression_of_ok hparse
      rw [← Parser.Leads.nil_iff.mp hts] at he
      exact ⟨opens, he⟩
    · cases h
  · rintro ⟨opens, h⟩
    obtain ⟨hr, hparse⟩ : Parser.Yields (Parser.expression tokens.stop tokens.lexemes) e [] :=
      (Parser.reading _ h _ [] (Parser.Leads.nil_iff.mpr rfl)
        ⟨⟨nofun, nofun⟩, nofun, nofun, nofun⟩).yields
    unfold ofTokens
    rw [hparse]
    rfl

/-- A text is accepted as an expression exactly when its tokens are one in the grammar. -/
theorem ofText_eq_ok_iff {text : String} {e : Expression} : ofText text = .ok e ↔
    ∃ opens ts, Lexer.Reads true text.toList ts [] ∧ Derives (.expression opens) ts e := by
  constructor
  · intro h
    obtain ⟨tokens, htokens, h⟩ := bind_eq_ok.mp h
    obtain ⟨opens, he⟩ := ofTokens_eq_ok_iff.mp h
    exact ⟨opens, _, Lexer.tokens_ofText_iff.mp ⟨tokens, htokens, rfl⟩, he⟩
  · rintro ⟨opens, ts, hts, he⟩
    obtain ⟨tokens, htokens, rfl⟩ := Lexer.tokens_ofText_iff.mpr hts
    unfold ofText
    rw [htokens]
    exact ofTokens_eq_ok_iff.mpr ⟨opens, he⟩

end Expression
end Hologram.Script
