import Hologram.Proofs.Script.Derivation
import Hologram.Proofs.Script.Statements

/-! Whatever the parser reads as statements is in the grammar of statements. -/
namespace Hologram.Script
namespace Parser

variable {stop : Nat}

/-- The token that comes next is the first one of those that are read, if there are any. -/
theorem Leads.next?_eq_or {s r : List Lexeme} {ts : List Token} (h : Leads s ts r) :
    next? s = ts.head?.or (next? r) := by
  cases h with
  | nil => rfl
  | cons => rfl

theorem assignable_eq_ok {offset : Nat} {e target : Expression}
    (h : assignable offset e = .ok target) : e = target ∧ target.isPlace = true := by
  cases e <;> cases h <;> exact ⟨rfl, rfl⟩

theorem simple_of_stepBefore {sign : Token} {operator : BinaryOperator} {offset : Nat}
    {s : List Lexeme} {p : Parsed Statement s.length} (hs : CountsBy sign operator)
    (h : stepBefore stop operator s = .ok p) :
    ∃ ts, Leads (⟨sign, offset⟩ :: s) ts p.rest ∧ Simple ts p.value := by
  obtain ⟨⟨target, r, hr⟩, htarget, h⟩ := bind_eq_ok.mp h
  obtain ⟨ts, hts, he⟩ := postfixed_of_ok htarget
  obtain ⟨_, hassign, h⟩ := bind_eq_ok.mp h
  obtain ⟨rfl, hplace⟩ := assignable_eq_ok hassign
  cases pure_eq_ok.mp h
  exact ⟨_, .cons hts, .countBefore hs he hplace⟩

theorem simple_of_simpleStatement {s : List Lexeme} {p : Parsed Statement s.length}
    (h : simpleStatement stop s = .ok p) : ∃ ts, Leads s ts p.rest ∧ Simple ts p.value := by
  unfold simpleStatement at h
  split at h
  · obtain ⟨⟨statement, r, hr⟩, hstep, h⟩ := bind_eq_ok.mp h
    cases pure_eq_ok.mp h
    exact simple_of_stepBefore .up hstep
  · obtain ⟨⟨statement, r, hr⟩, hstep, h⟩ := bind_eq_ok.mp h
    cases pure_eq_ok.mp h
    exact simple_of_stepBefore .down hstep
  · obtain ⟨⟨first, r, hr⟩, hfirst, h⟩ := bind_eq_ok.mp h
    obtain ⟨opens, ts, hts, hfirst, -⟩ := expression_of_ok hfirst
    dsimp only at h
    split at h
    · obtain ⟨_, hassign, h⟩ := bind_eq_ok.mp h
      obtain ⟨rfl, hplace⟩ := assignable_eq_ok hassign
      obtain ⟨⟨value, r, hr⟩, hvalue, h⟩ := bind_eq_ok.mp h
      cases pure_eq_ok.mp h
      obtain ⟨opens', us, hus, hvalue, -⟩ := expression_of_ok hvalue
      exact ⟨_, hts.append (.cons hus), .assign .plain hfirst hplace hvalue⟩
    · obtain ⟨_, hassign, h⟩ := bind_eq_ok.mp h
      obtain ⟨rfl, hplace⟩ := assignable_eq_ok hassign
      obtain ⟨⟨value, r, hr⟩, hvalue, h⟩ := bind_eq_ok.mp h
      cases pure_eq_ok.mp h
      obtain ⟨opens', us, hus, hvalue, -⟩ := expression_of_ok hvalue
      exact ⟨_, hts.append (.cons hus), .assign (.combined _) hfirst hplace hvalue⟩
    · obtain ⟨_, hassign, h⟩ := bind_eq_ok.mp h
      obtain ⟨rfl, hplace⟩ := assignable_eq_ok hassign
      cases pure_eq_ok.mp h
      exact ⟨_, hts.append (.cons .nil), .countAfter .up hfirst hplace⟩
    · obtain ⟨_, hassign, h⟩ := bind_eq_ok.mp h
      obtain ⟨rfl, hplace⟩ := assignable_eq_ok hassign
      cases pure_eq_ok.mp h
      exact ⟨_, hts.append (.cons .nil), .countAfter .down hfirst hplace⟩
    · cases pure_eq_ok.mp h
      exact ⟨ts, hts, .eval hfirst⟩

theorem simple_of_returnValue {offset : Nat} {s : List Lexeme}
    {p : Parsed (Option Expression) (s.length + 1)} (h : returnValue stop s = .ok p) :
    ∃ ts, Leads (⟨.returnWord, offset⟩ :: s) ts p.rest ∧ Simple ts (.returns p.value) := by
  unfold returnValue at h
  split_ifs at h
  · cases h
    exact ⟨_, .cons .nil, .returnsNothing⟩
  · obtain ⟨⟨value, r, hr⟩, hvalue, h⟩ := bind_eq_ok.mp h
    cases pure_eq_ok.mp h
    obtain ⟨opens, ts, hts, he, -⟩ := expression_of_ok hvalue
    exact ⟨_, .cons hts, .returns he⟩

/-- A statement ends with its semicolon, or where its block does. -/
theorem forms_of_statementEnd {s r : List Lexeme} {ts : List Token} {a : Statement}
    {p : { p : List Lexeme // p.length ≤ r.length }} (hts : Leads s ts r) (ha : Simple ts a)
    (h : statementEnd stop r = .ok p) :
    ∃ us, Leads s us p.val ∧ Forms .statement (next? p.val) us [a] := by
  unfold statementEnd at h
  split at h
  · cases h
    exact ⟨_, hts.append (.cons .nil), .ended ha⟩
  · split_ifs at h with hends
    cases h
    refine ⟨ts, hts, .last ha fun t ht => ?_⟩
    obtain ⟨l, hl, rfl⟩ := Option.map_eq_some_iff.mp ht
    unfold endsBlock at hends
    rw [hl] at hends
    exact eq_of_beq hends

theorem leads_of_loopVariable {s : List Lexeme} {p : Parsed String s.length}
    (h : loopVariable s = .ok p) : Leads s [.identifier p.value] p.rest := by
  unfold loopVariable at h
  split at h
  · cases h
    exact .cons .nil
  · contradiction

theorem leads_of_loopComparison {s : List Lexeme} {p : Parsed Bool s.length}
    (h : loopComparison s = .ok p) :
    Leads s [.operator (if p.value then .lessEqual else .less)] p.rest := by
  unfold loopComparison at h
  split at h
  · cases h
    exact .cons .nil
  · cases h
    exact .cons .nil
  · contradiction

theorem leads_of_loopStep {s : List Lexeme} {p : Parsed String s.length}
    (h : loopStep s = .ok p) : ∃ step, Leads s step p.rest ∧
      (step = [.identifier p.value, .increment] ∨ step = [.increment, .identifier p.value]) := by
  unfold loopStep at h
  split at h
  · cases h
    exact ⟨_, .cons (.cons .nil), .inl rfl⟩
  · cases h
    exact ⟨_, .cons (.cons .nil), .inr rfl⟩
  · contradiction

theorem heads_of_loopHeader {s : List Lexeme} {p : Parsed LoopHeader s.length}
    (h : loopHeader stop s = .ok p) : ∃ ts, Leads s ts p.rest ∧ Heads ts p.value := by
  obtain ⟨⟨r, h₀⟩, hopen, h⟩ := bind_eq_ok.mp h
  obtain ⟨⟨name, r₂, h₁⟩, hname, h⟩ := bind_eq_ok.mp h
  obtain ⟨⟨r₃, h₂⟩, hassign, h⟩ := bind_eq_ok.mp h
  obtain ⟨⟨first, r₄, h₃⟩, hfirst, h⟩ := bind_eq_ok.mp h
  obtain ⟨⟨r₅, h₄⟩, hend, h⟩ := bind_eq_ok.mp h
  obtain ⟨⟨compared, r₆, h₅⟩, hcompared, h⟩ := bind_eq_ok.mp h
  obtain ⟨⟨inclusive, r₇, h₆⟩, hcomparison, h⟩ := bind_eq_ok.mp h
  obtain ⟨⟨last, r₈, h₇⟩, hlast, h⟩ := bind_eq_ok.mp h
  obtain ⟨⟨r₉, h₈⟩, hend', h⟩ := bind_eq_ok.mp h
  obtain ⟨⟨stepped, r₁₀, h₉⟩, hstep, h⟩ := bind_eq_ok.mp h
  obtain ⟨⟨r₁₁, h₁₀⟩, hclose, h⟩ := bind_eq_ok.mp h
  dsimp only at h
  split_ifs at h with hsame
  obtain ⟨rfl, rfl⟩ := hsame
  cases pure_eq_ok.mp h
  obtain ⟨words, hname, hwords⟩ : ∃ words, Leads r (words ++ [.identifier stepped]) r₂ ∧
      (words = [] ∨ words = [.letWord]) := by
    have hname := leads_of_loopVariable hname
    dsimp only at hname
    split at hname
    · exact ⟨[.letWord], .cons hname, .inr rfl⟩
    · exact ⟨[], hname, .inl rfl⟩
  obtain ⟨opens, ts, hts, hfirst, -⟩ := expression_of_ok hfirst
  obtain ⟨us, hus, hlast, -⟩ := binary_of_ok hlast
  obtain ⟨step, hstep, hsteps⟩ := leads_of_loopStep hstep
  have hbounds := (leads_of_expect hassign).append (hts.append ((leads_of_expect hend).append
    ((leads_of_loopVariable hcompared).append ((leads_of_loopComparison hcomparison).append
      (hus.append ((leads_of_expect hend').append (hstep.append (leads_of_expect hclose))))))))
  have hall := (leads_of_expect hopen).append (hname.append hbounds)
  rw [List.append_assoc] at hall
  exact ⟨_, hall, .counting hwords hfirst hlast hsteps⟩

mutual

theorem statements_of_ok {n : Nat} {read : List Statement} {s : List Lexeme} {hs : s.length < n}
    {p : Parsed (List Statement) n} (h : statements stop n read s hs = .ok p) :
    ∃ ts more, p.value = read.reverse ++ more ∧ Leads s ts p.rest ∧
      Forms .statements (next? p.rest) ts more ∧ ∀ t ∈ next? p.rest, t = .rightBrace := by
  unfold statements at h
  split at h
  · cases h
    exact ⟨[], [], by simp, .nil, .nil, nofun⟩
  · cases h
    refine ⟨[], [], by simp, .nil, .nil, ?_⟩
    rintro _ ⟨⟩
    rfl
  · obtain ⟨⟨statement?, r, hr⟩, hstatement, h⟩ := bind_eq_ok.mp h
    obtain ⟨ts, hts, hfirst⟩ := statement_of_ok hstatement
    obtain ⟨us, more, hvalue, hus, hmore, hends⟩ := statements_of_ok h
    rw [hus.next?_eq_or] at hfirst
    refine ⟨ts ++ us, statement?.toList ++ more, ?_, hts.append hus, .cons hfirst hmore, hends⟩
    cases statement? <;> simp [hvalue]
  termination_by s.length * 4 + 2
  decreasing_by all_goals omega

theorem block_of_ok {s : List Lexeme} {p : Parsed (List Statement) s.length}
    (h : block stop s = .ok p) :
    ∃ ts, Leads s ts p.rest ∧ Forms .block (next? p.rest) ts p.value := by
  unfold block at h
  by_cases hopen : next? s = some .leftBrace
  · obtain ⟨offset, s, rfl, hlt⟩ := eq_cons_of_next? hopen
    obtain ⟨⟨body, r, hr⟩, hbody, h⟩ := bind_eq_ok.mp h
    obtain ⟨⟨r', hr'⟩, hclose, h⟩ := bind_eq_ok.mp h
    cases pure_eq_ok.mp h
    obtain ⟨ts, more, hvalue, hts, hmore, -⟩ := statements_of_ok hbody
    obtain rfl : body = more := hvalue
    have hbrace := leads_of_expect hclose
    rw [hbrace.next?_eq] at hmore
    exact ⟨_, .cons (hts.append hbrace), .braced hmore⟩
  · split at h
    · exact absurd rfl hopen
    obtain ⟨⟨statement?, r, hr⟩, hstatement, h⟩ := bind_eq_ok.mp h
    cases pure_eq_ok.mp h
    obtain ⟨ts, hts, hp⟩ := statement_of_ok hstatement
    exact ⟨ts, hts, .single hp⟩
  termination_by s.length * 4 + 1
  decreasing_by all_goals omega

theorem statement_of_ok {s : List Lexeme} {p : Parsed (Option Statement) s.length}
    (h : statement stop s = .ok p) :
    ∃ ts, Leads s ts p.rest ∧ Forms .statement (next? p.rest) ts p.value.toList := by
  unfold statement at h
  by_cases hif : next? s = some .ifWord
  · obtain ⟨offset, s, rfl, hlt⟩ := eq_cons_of_next? hif
    obtain ⟨⟨branch, r, hr⟩, hbranch, h⟩ := bind_eq_ok.mp h
    cases pure_eq_ok.mp h
    obtain ⟨ts, hts, hp⟩ := branch_of_ok hbranch
    exact ⟨_, .cons hts, hp⟩
  by_cases hfor : next? s = some .forWord
  · obtain ⟨offset, s, rfl, hlt⟩ := eq_cons_of_next? hfor
    obtain ⟨⟨header, r, hr⟩, hheader, h⟩ := bind_eq_ok.mp h
    obtain ⟨⟨body, r', hr'⟩, hbody, h⟩ := bind_eq_ok.mp h
    cases pure_eq_ok.mp h
    obtain ⟨ts, hts, hheader⟩ := heads_of_loopHeader hheader
    obtain ⟨us, hus, hbody⟩ := block_of_ok hbody
    exact ⟨_, .cons (hts.append hus), .loop hheader hbody⟩
  -- The other statements hold no statements of their own.
  split at h
  · cases h
    exact ⟨_, .cons .nil, .skip⟩
  · exact absurd rfl hif
  · exact absurd rfl hfor
  · contradiction
  · obtain ⟨⟨value, r, hr⟩, hvalue, h⟩ := bind_eq_ok.mp h
    obtain ⟨⟨r', hr'⟩, hend, h⟩ := bind_eq_ok.mp h
    cases pure_eq_ok.mp h
    obtain ⟨ts, hts, hreturns⟩ := simple_of_returnValue hvalue
    exact forms_of_statementEnd hts hreturns hend
  · obtain ⟨⟨simple, r, hr⟩, hsimple, h⟩ := bind_eq_ok.mp h
    obtain ⟨⟨r', hr'⟩, hend, h⟩ := bind_eq_ok.mp h
    cases pure_eq_ok.mp h
    obtain ⟨ts, hts, hsimple⟩ := simple_of_simpleStatement hsimple
    exact forms_of_statementEnd hts hsimple hend
  termination_by s.length * 4
  decreasing_by all_goals omega

theorem branch_of_ok {s : List Lexeme} {p : Parsed Statement s.length}
    (h : branch stop s = .ok p) :
    ∃ ts, Leads s ts p.rest ∧ Forms .statement (next? p.rest) (.ifWord :: ts) [p.value] := by
  unfold branch at h
  obtain ⟨⟨r, h₀⟩, hopen, h⟩ := bind_eq_ok.mp h
  obtain ⟨⟨condition, r₁, h₁⟩, hcondition, h⟩ := bind_eq_ok.mp h
  obtain ⟨⟨r₂, h₂⟩, hclose, h⟩ := bind_eq_ok.mp h
  obtain ⟨⟨satisfied, r₃, h₃⟩, hsatisfied, h⟩ := bind_eq_ok.mp h
  obtain ⟨opens, ts, hts, hc, -⟩ := expression_of_ok hcondition
  obtain ⟨us, hus, hs⟩ := block_of_ok hsatisfied
  have hguard {vs : List Token} {r' : List Lexeme} (hvs : Leads r₂ vs r') :
      Leads s (.leftParen :: (ts ++ .rightParen :: vs)) r' :=
    (leads_of_expect hopen).append (hts.append ((leads_of_expect hclose).append hvs))
  by_cases helse : next? r₃ = some .elseWord
  · obtain ⟨offset, r₃, rfl, hlt⟩ := eq_cons_of_next? helse
    by_cases hif : next? r₃ = some .ifWord
    · obtain ⟨offset', r₃, rfl, hlt'⟩ := eq_cons_of_next? hif
      obtain ⟨⟨nested, r', hr'⟩, hnested, h⟩ := bind_eq_ok.mp h
      cases pure_eq_ok.mp h
      obtain ⟨vs, hvs, hu⟩ := branch_of_ok hnested
      exact ⟨_, hguard (hus.append (.cons (.cons hvs))), .branch hc hs (.single hu)⟩
    · dsimp only at h
      split at h
      · cases ‹_ :: _ = _ :: _›
        exact absurd rfl hif
      · cases ‹_ :: _ = _ :: _›
        obtain ⟨⟨unsatisfied, r', hr'⟩, hunsatisfied, h⟩ := bind_eq_ok.mp h
        cases pure_eq_ok.mp h
        obtain ⟨vs, hvs, hu⟩ := block_of_ok hunsatisfied
        exact ⟨_, hguard (hus.append (.cons hvs)), .branch hc hs hu⟩
      · rename_i hnot
        exact (hnot _ _ _ rfl HEq.rfl).elim
  · dsimp only at h
    split at h
    · exact absurd rfl helse
    · exact absurd rfl helse
    · cases pure_eq_ok.mp h
      exact ⟨_, hguard hus, .guarded hc hs helse⟩
  termination_by s.length * 4 + 1
  decreasing_by all_goals omega

end

end Parser
end Hologram.Script
