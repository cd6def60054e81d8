import Hologram.Proofs.Script.StatementDerivation

/-! The parser reads all statements of the grammar, so that a text is accepted exactly when its
tokens are statements. -/
namespace Hologram.Script
namespace Parser

variable {stop : Nat}

/-- Before a token that stands in no expression every expression ends. -/
theorem Stops.of_inExpression {opens : Bool} {r : List Lexeme}
    (h : ∀ t ∈ next? r, t.inExpression = false) : Stops opens r := by
  have hne {t : Token} (ht : t.inExpression = true) : next? r ≠ some t := fun hr => by
    rw [h t hr] at ht
    contradiction
  exact ⟨⟨hne rfl, hne rfl⟩, fun _ => hne rfl, hne rfl, fun _ => hne rfl⟩

theorem yields_of_derives {opens : Bool} {ts : List Token} {e : Expression} {s r : List Lexeme}
    (h : Derives (.expression opens) ts e) (hs : Leads s ts r)
    (hr : ∀ t ∈ next? r, t.inExpression = false) : Yields (expression stop s) e r :=
  (reading stop h s r hs (.of_inExpression hr)).yields

theorem assignable_of_isPlace {e : Expression} (h : e.isPlace = true) (offset : Nat) :
    assignable offset e = .ok e := by
  cases e <;> first | rfl | contradiction

theorem yields_stepBefore {operator : BinaryOperator} {ts : List Token} {target : Expression}
    {s r : List Lexeme} (ht : Derives .postfixed ts target) (hplace : target.isPlace = true)
    (hs : Leads s ts r) (hr : ∀ t ∈ next? r, t.inExpression = false) :
    Yields (stepBefore stop operator s) (.assign target (some operator) (.int 1)) r := by
  have hstops : Stops true r := .of_inExpression hr
  obtain ⟨h, htarget⟩ := reading stop ht s r _ r hs hstops.closed.1 fun _ hn =>
    yields_indexTail hstops.closed.2 hn
  unfold stepBefore
  rw [htarget]
  dsimp only [ok_bind]
  rw [assignable_of_isPlace hplace]
  exact ⟨_, rfl⟩

theorem yields_countBefore {sign : Token} {operator : BinaryOperator} {a : Statement}
    {offset : Nat} {s r : List Lexeme} (hsign : CountsBy sign operator)
    (h : Yields (stepBefore stop operator s) a r) :
    Yields (simpleStatement stop (⟨sign, offset⟩ :: s)) a r := by
  obtain ⟨h, hstep⟩ := h
  cases hsign <;> unfold simpleStatement <;> dsimp only <;> rw [hstep] <;> exact ⟨_, rfl⟩

section
variable {s : List Lexeme} (hup : next? s ≠ some .increment) (hdown : next? s ≠ some .decrement)
include hup hdown

theorem yields_countAfter {sign : Token} {operator : BinaryOperator} {target : Expression}
    {offset : Nat} {r : List Lexeme} (hsign : CountsBy sign operator)
    (hplace : target.isPlace = true) (h : Yields (expression stop s) target (⟨sign, offset⟩ :: r)) :
    Yields (simpleStatement stop s) (.assign target (some operator) (.int 1)) r := by
  obtain ⟨h, htarget⟩ := h
  unfold simpleStatement
  split
  · contradiction
  · contradiction
  rw [htarget]
  cases hsign <;> dsimp only [ok_bind] <;> rw [assignable_of_isPlace hplace] <;> exact ⟨_, rfl⟩

theorem yields_assignPlace {sign : Token} {operator : Option BinaryOperator}
    {target value : Expression} {offset : Nat} {middle r : List Lexeme}
    (hsign : AssignsBy sign operator) (hplace : target.isPlace = true)
    (h : Yields (expression stop s) target (⟨sign, offset⟩ :: middle))
    (hv : Yields (expression stop middle) value r) :
    Yields (simpleStatement stop s) (.assign target operator value) r := by
  obtain ⟨h, htarget⟩ := h
  obtain ⟨h', hvalue⟩ := hv
  unfold simpleStatement
  split
  · contradiction
  · contradiction
  rw [htarget]
  cases hsign <;> dsimp only [ok_bind] <;> rw [assignable_of_isPlace hplace] <;>
    dsimp only [ok_bind] <;> rw [hvalue] <;> exact ⟨_, rfl⟩

theorem yields_evalStatement {e : Expression} {r : List Lexeme}
    (hr : ∀ t ∈ next? r, t = .semicolon ∨ t = .rightBrace) (h : Yields (expression stop s) e r) :
    Yields (simpleStatement stop s) (.eval e) r := by
  obtain ⟨h, he⟩ := h
  unfold simpleStatement
  split
  · contradiction
  · contradiction
  rw [he]
  dsimp only [ok_bind]
  split
  · exact absurd (hr _ rfl) (by simp)
  · exact absurd (hr _ rfl) (by simp)
  · exact absurd (hr _ rfl) (by simp)
  · exact absurd (hr _ rfl) (by simp)
  · exact ⟨_, rfl⟩

end

/-- A statement that begins like an expression or with a count holds no others. -/
theorem yields_statement {t : Token} {a : Statement} {s middle : List Lexeme}
    {r : { r : List Lexeme // r.length ≤ middle.length }} (ht : next? s = some t)
    (hopens : t.opensOperand = true ∨ t = .increment ∨ t = .decrement)
    (h : Yields (simpleStatement stop s) a middle) (hend : statementEnd stop middle = .ok r) :
    Yields (statement stop s) (some a) r.val := by
  obtain ⟨h, ha⟩ := h
  unfold statement
  split
  case h_6 =>
    rw [ha]
    dsimp only [ok_bind]
    rw [hend]
    exact ⟨_, rfl⟩
  all_goals
    cases ht
    simp [Token.opensOperand] at hopens

theorem yields_returnNothing {offset : Nat} {middle : List Lexeme}
    {r : { r : List Lexeme // r.length ≤ middle.length }}
    (hmiddle : endsStatement middle = true) (hend : statementEnd stop middle = .ok r) :
    Yields (statement stop (⟨.returnWord, offset⟩ :: middle)) (some (.returns none)) r.val := by
  unfold statement returnValue
  dsimp only
  rw [if_pos hmiddle]
  dsimp only [ok_bind, Parsed.ahead]
  rw [hend]
  exact ⟨_, rfl⟩

theorem yields_returnStatement {offset : Nat} {e : Expression} {s middle : List Lexeme}
    {r : { r : List Lexeme // r.length ≤ middle.length }} (hs : endsStatement s = false)
    (h : Yields (expression stop s) e middle) (hend : statementEnd stop middle = .ok r) :
    Yields (statement stop (⟨.returnWord, offset⟩ :: s)) (some (.returns (some e))) r.val := by
  obtain ⟨h, he⟩ := h
  unfold statement returnValue
  dsimp only
  rw [if_neg (by rw [hs]; nofun), he]
  dsimp only [ok_bind]
  rw [pure_bind, hend]
  exact ⟨_, rfl⟩

theorem endsStatement_iff {s : List Lexeme} :
    endsStatement s = true ↔ ∀ t ∈ next? s, t = .semicolon ∨ t = .rightBrace := by
  cases s <;> simp [endsStatement, endsBlock, next?]

/-- The parser reads a statement that holds no others up to the end of the statement. -/
theorem yields_of_simple {ts : List Token} {a : Statement} (ha : Simple ts a)
    {s middle : List Lexeme} {r : { r : List Lexeme // r.length ≤ middle.length }}
    (hs : Leads s ts middle) (hmiddle : endsStatement middle = true)
    (hend : statementEnd stop middle = .ok r) : Yields (statement stop s) (some a) r.val := by
  have hnext := endsStatement_iff.mp hmiddle
  have hends : ∀ t ∈ next? middle, t.inExpression = false := by
    intro t ht
    rcases hnext t ht with rfl | rfl <;> rfl
  have hopens {level : Level} {us : List Token} {e : Expression} {r' : List Lexeme}
      (he : Derives level us e) (hus : Leads s us r')
      (h : Yields (simpleStatement stop s) a middle) :
      Yields (statement stop s) (some a) r.val := by
    obtain ⟨t, ht, hopens⟩ := exists_next? he hus
    exact yields_statement ht (.inl hopens) h hend
  cases ha with
  | countBefore hsign ht hplace =>
    obtain _ | hs := hs
    refine yields_statement rfl ?_
      (yields_countBefore hsign (yields_stepBefore ht hplace hs hends)) hend
    cases hsign <;> simp
  | countAfter hsign ht hplace =>
    obtain ⟨last, hs, hcount⟩ := Leads.append_iff.mp hs
    obtain _ | ⟨⟨⟩⟩ := hcount
    refine hopens ht hs (yields_countAfter (next?_ne ht hs rfl) (next?_ne ht hs rfl) hsign hplace
      (yields_of_derives ht hs ?_))
    rintro _ ⟨⟩
    exact hsign.inExpression
  | assign hsign ht hplace hv =>
    obtain ⟨last, hs, hvalue⟩ := Leads.append_iff.mp hs
    obtain _ | hvalue := hvalue
    refine hopens ht hs (yields_assignPlace (next?_ne ht hs rfl) (next?_ne ht hs rfl) hsign hplace
      (yields_of_derives ht hs ?_) (yields_of_derives hv hvalue hends))
    rintro _ ⟨⟩
    exact hsign.inExpression
  | eval h =>
    exact hopens h hs (yields_evalStatement (next?_ne h hs rfl) (next?_ne h hs rfl) hnext
      (yields_of_derives h hs hends))
  | returnsNothing =>
    obtain _ | ⟨⟨⟩⟩ := hs
    exact yields_returnNothing hmiddle hend
  | returns h =>
    obtain _ | hs := hs
    refine yields_returnStatement ?_ (yields_of_derives h hs hends) hend
    rw [Bool.eq_false_iff, Ne, endsStatement_iff]
    intro hs'
    obtain ⟨t, ht, hopens⟩ := exists_next? h hs
    rcases hs' t ht with rfl | rfl <;> contradiction

theorem loopVariable_cons (x : String) (offset : Nat) (r : List Lexeme) :
    loopVariable (⟨.identifier x, offset⟩ :: r) = .ok (.ahead x r) :=
  rfl

theorem loopComparison_cons (inclusive : Bool) (offset : Nat) (r : List Lexeme) :
    loopComparison (⟨.operator (if inclusive then .lessEqual else .less), offset⟩ :: r) =
      .ok (.ahead inclusive r) := by
  cases inclusive <;> rfl

theorem yields_loopStep {x : String} {step : List Token} {s r : List Lexeme}
    (hstep : step = [.identifier x, .increment] ∨ step = [.increment, .identifier x])
    (hs : Leads s step r) : Yields (loopStep s) x r := by
  rcases hstep with rfl | rfl
  · obtain _ | _ | ⟨⟨⟩⟩ := hs
    exact ⟨_, rfl⟩
  · obtain _ | _ | ⟨⟨⟩⟩ := hs
    exact ⟨_, rfl⟩

variable (stop) in
theorem yields_loopHeader {ts : List Token} {header : LoopHeader} (h : Heads ts header)
    {s r : List Lexeme} (hs : Leads s ts r) : Yields (loopHeader stop s) header r := by
  obtain @⟨words, ts, us, step, x, opens, first, last, inclusive, hwords, hfirst, hlast, hstep⟩ := h
  obtain _ | hs := hs
  obtain ⟨r₁, hletters, hs⟩ := Leads.append_iff.mp hs
  obtain _ | _ | hs := hs
  obtain ⟨r₂, hts, hs⟩ := Leads.append_iff.mp hs
  obtain _ | _ | _ | hs := hs
  obtain ⟨r₃, hus, hs⟩ := Leads.append_iff.mp hs
  obtain _ | hs := hs
  obtain ⟨r₄, hsteps, hclose⟩ := Leads.append_iff.mp hs
  obtain _ | ⟨⟨⟩⟩ := hclose
  obtain ⟨h₁, hfirst⟩ : Yields (expression stop _) first _ :=
    (reading stop hfirst _ _ hts (.of_next? rfl (by simp))).yields
  obtain ⟨h₂, hlast⟩ : Yields (binary stop 1 _) last _ :=
    yields_of_reading (reading stop hlast) hus ⟨nofun, nofun⟩ (fun _ => nofun)
  obtain ⟨h₃, hstep⟩ := yields_loopStep hstep hsteps
  -- The word before the variable may be missing.
  rcases hwords with rfl | rfl <;> obtain _ | ⟨⟨⟩⟩ := hletters
  all_goals
    unfold loopHeader
    simp only [expect_cons, ok_bind, loopVariable_cons, Parsed.ahead, hfirst, loopComparison_cons,
      hlast, hstep]
    exact ⟨_, if_pos ⟨trivial, trivial⟩⟩

/-- A block that begins with a condition is the branch that the condition begins. -/
theorem exists_branch_of_block {offset : Nat} {q : List Statement} {s r : List Lexeme}
    (h : Yields (block stop (⟨.ifWord, offset⟩ :: s)) q r) :
    ∃ nested, q = [nested] ∧ Yields (branch stop s) nested r := by
  obtain ⟨h, hblock⟩ := h
  unfold block statement at hblock
  dsimp only at hblock
  obtain ⟨⟨nested?, r', h'⟩, hstatement, hblock⟩ := bind_eq_ok.mp hblock
  obtain ⟨⟨nested, r'', h''⟩, hbranch, hstatement⟩ := bind_eq_ok.mp hstatement
  cases pure_eq_ok.mp hstatement
  cases pure_eq_ok.mp hblock
  exact ⟨nested, rfl, h'', hbranch⟩

/-- What a branch is, by what follows its first block. -/
inductive Continues (stop : Nat) (c : Expression) (p : List Statement) (r : List Lexeme) :
    List Lexeme → Statement → Prop where
  | guarded (hr : next? r ≠ some .elseWord) : Continues stop c p r r (.guarded c p)
  | branch {offset : Nat} {last : List Lexeme} {q : List Statement}
      (hq : Yields (block stop last) q r) :
      Continues stop c p r (⟨.elseWord, offset⟩ :: last) (.branch c p q)

theorem yields_branch_of_continues {c : Expression} {p : List Statement} {a : Statement}
    {offset offset' : Nat} {s middle last r : List Lexeme}
    (hc : Yields (expression stop s) c (⟨.rightParen, offset'⟩ :: middle))
    (hp : Yields (block stop middle) p last) (h : Continues stop c p r last a) :
    Yields (branch stop (⟨.leftParen, offset⟩ :: s)) a r := by
  obtain ⟨h₁, hc⟩ := hc
  obtain ⟨h₂, hp⟩ := hp
  unfold branch
  rw [expect_cons, ok_bind]
  dsimp only
  rw [hc, ok_bind]
  dsimp only
  rw [expect_cons, ok_bind]
  dsimp only
  rw [hp, ok_bind]
  dsimp only
  cases h with
  | guarded hr =>
    split
    · contradiction
    · contradiction
    · exact ⟨_, rfl⟩
  | @branch offset last q hq =>
    by_cases hif : next? last = some .ifWord
    · -- A branch directly behind the word for the alternative is what a block there is.
      obtain ⟨offset', last, rfl, -⟩ := eq_cons_of_next? hif
      obtain ⟨nested, rfl, h₃, hnested⟩ := exists_branch_of_block hq
      dsimp only
      rw [hnested]
      exact ⟨_, rfl⟩
    · obtain ⟨h₃, hq⟩ := hq
      split
      · cases ‹_ :: _ = _ :: _›
        exact absurd rfl hif
      · cases ‹_ :: _ = _ :: _›
        rw [hq]
        exact ⟨_, rfl⟩
      · rename_i hnot
        exact (hnot _ _ _ rfl HEq.rfl).elim

/-- The parser reads a condition and goes on as what follows its first block says. -/
theorem yields_condition {opens : Bool} {ts us : List Token} {c : Expression} {a : Statement}
    {s r : List Lexeme} (hc : Derives (.expression opens) ts c)
    (hs : Leads s (.ifWord :: .leftParen :: (ts ++ .rightParen :: us)) r)
    (h : ∀ middle, Leads middle us r →
      ∃ p last, Yields (block stop middle) p last ∧ Continues stop c p r last a) :
    Yields (statement stop s) (some a) r := by
  obtain _ | _ | hs := hs
  obtain ⟨middle, hts, hs⟩ := Leads.append_iff.mp hs
  obtain _ | hus := hs
  obtain ⟨p, last, hp, hcontinues⟩ := h _ hus
  obtain ⟨h₁, hbranch⟩ := yields_branch_of_continues
    (reading stop hc _ _ hts (.of_next? rfl (by simp))).yields hp hcontinues
  unfold statement
  dsimp only
  rw [hbranch]
  exact ⟨_, rfl⟩

theorem yields_loop {ts us : List Token} {header : LoopHeader} {body : List Statement}
    {s r : List Lexeme} (hheader : Heads ts header) (hs : Leads s (.forWord :: (ts ++ us)) r)
    (h : ∀ middle, Leads middle us r → Yields (block stop middle) body r) :
    Yields (statement stop s)
      (some (.loop header.variableName header.first header.last header.inclusive body)) r := by
  obtain _ | hs := hs
  obtain ⟨middle, hts, hus⟩ := Leads.append_iff.mp hs
  obtain ⟨h₁, hheader⟩ := yields_loopHeader stop hheader hts
  obtain ⟨h₂, hbody⟩ := h middle hus
  unfold statement
  dsimp only
  rw [hheader, ok_bind]
  dsimp only
  rw [hbody]
  exact ⟨_, rfl⟩

/-- What the parser of a part does with tokens that spell statements of that part. -/
def ReadsPart (stop : Nat) : Part → Option Token → List Token → List Statement → Prop
  | .statement, next, ts, p => ∀ s r, Leads s ts r → next? r = next →
    ∃ statement? : Option Statement, statement?.toList = p ∧ Yields (statement stop s) statement? r
  | .block, next, ts, p => ∀ s r, Leads s ts r → next? r = next → Yields (block stop s) p r
  | .statements, next, ts, p => (∀ t ∈ next, t = .rightBrace) →
    ∀ n read s r h, Leads s ts r → next? r = next →
      Yields (statements stop n read s h) (read.reverse ++ p) r

theorem yields_statementsEnd {n : Nat} {read : List Statement} {s : List Lexeme}
    (hs : ∀ t ∈ next? s, t = .rightBrace) (h : s.length < n) :
    Yields (statements stop n read s h) read.reverse s := by
  unfold statements
  cases s with
  | nil => exact ⟨h, rfl⟩
  | cons l s =>
    obtain ⟨token, offset⟩ := l
    obtain rfl : token = .rightBrace := hs _ rfl
    exact ⟨h, rfl⟩

theorem yields_statements {n : Nat} {read p : List Statement} {statement? : Option Statement}
    {t : Token} {s middle r : List Lexeme} (hs : next? s = some t) (ht : t ≠ .rightBrace)
    (hstatement : Yields (statement stop s) statement? middle)
    (hrest : ∀ read h, Yields (statements stop n read middle h) (read.reverse ++ p) r)
    (h : s.length < n) :
    Yields (statements stop n read s h) (read.reverse ++ (statement?.toList ++ p)) r := by
  obtain ⟨h₁, hstatement⟩ := hstatement
  unfold statements
  split
  · cases hs
  · cases hs
    exact absurd rfl ht
  · rw [hstatement]
    have hnext := hrest (statement?.toList ++ read) (by omega)
    rw [List.reverse_append, List.append_assoc] at hnext
    cases statement? <;> exact hnext

theorem yields_single {statement? : Option Statement} {t : Token} {s r : List Lexeme}
    (hs : next? s = some t) (ht : t ≠ .leftBrace) (h : Yields (statement stop s) statement? r) :
    Yields (block stop s) statement?.toList r := by
  obtain ⟨h, hstatement⟩ := h
  unfold block
  split
  · cases hs
    exact absurd rfl ht
  · rw [hstatement]
    exact ⟨_, rfl⟩

theorem yields_bracedBlock {body : List Statement} {offset offset' : Nat} {s r : List Lexeme}
    (h : ∀ n h, Yields (statements stop n [] s h) body (⟨.rightBrace, offset'⟩ :: r)) :
    Yields (block stop (⟨.leftBrace, offset⟩ :: s)) body r := by
  obtain ⟨h₁, hbody⟩ := h (s.length + 1) (length_lt s)
  unfold block
  dsimp only
  rw [hbody, ok_bind]
  dsimp only
  rw [expect_cons]
  exact ⟨_, rfl⟩

variable (stop) in
/-- Where the block of a statement ends, the statement may end without a semicolon. -/
theorem statementEnd_of_next? {s : List Lexeme} (hs : ∀ t ∈ next? s, t = .rightBrace) :
    endsStatement s = true ∧ statementEnd stop s = .ok ⟨s, Nat.le_refl _⟩ := by
  cases s with
  | nil => exact ⟨rfl, rfl⟩
  | cons l s =>
    obtain ⟨token, offset⟩ := l
    obtain rfl : token = .rightBrace := hs _ rfl
    exact ⟨rfl, rfl⟩

variable (stop) in
/-- The parser reads all statements of the grammar. -/
theorem readsPart {part : Part} {next : Option Token} {ts : List Token} {p : List Statement}
    (h : Forms part next ts p) : ReadsPart stop part next ts p := by
  induction h with
  | skip =>
    intro s r hs hr
    obtain _ | ⟨⟨⟩⟩ := hs
    exact ⟨none, rfl, by rw [statement]; exact ⟨_, rfl⟩⟩
  | ended ha =>
    intro s r hs hr
    obtain ⟨middle, hs, hend⟩ := Leads.append_iff.mp hs
    obtain _ | ⟨⟨⟩⟩ := hend
    exact ⟨some _, rfl, yields_of_simple ha hs rfl rfl⟩
  | last ha hnext =>
    intro s r hs hr
    obtain ⟨hends, hend⟩ := statementEnd_of_next? stop (hr ▸ hnext)
    exact ⟨some _, rfl, yields_of_simple ha hs hends hend⟩
  | guarded hc hsatisfied hnext ih =>
    intro s r hs hr
    refine ⟨some _, rfl, yields_condition hc hs fun middle hmiddle => ?_⟩
    exact ⟨_, r, ih middle r hmiddle hr, .guarded (hr ▸ hnext)⟩
  | branch hc hsatisfied hunsatisfied ih ih' =>
    intro s r hs hr
    refine ⟨some _, rfl, yields_condition hc hs fun middle hmiddle => ?_⟩
    obtain ⟨last, hmiddle, helse⟩ := Leads.append_iff.mp hmiddle
    have hlast := ih middle last hmiddle helse.next?_eq
    obtain _ | helse := helse
    exact ⟨_, _, hlast, .branch (ih' _ r helse hr)⟩
  | loop hheader h ih =>
    intro s r hs hr
    exact ⟨some _, rfl, yields_loop hheader hs fun middle hmiddle => ih middle r hmiddle hr⟩
  | single h ih =>
    intro s r hs hr
    obtain ⟨statement?, rfl, hstatement⟩ := ih s r hs hr
    obtain ⟨t, us, rfl, ht⟩ := h.exists_cons
    refine yields_single hs.next?_eq ?_ hstatement
    rintro rfl
    contradiction
  | braced h ih =>
    intro s r hs hr
    obtain _ | hs := hs
    obtain ⟨last, hs, hclose⟩ := Leads.append_iff.mp hs
    obtain _ | ⟨⟨⟩⟩ := hclose
    exact yields_bracedBlock fun n h => ih (by simp) n [] _ _ h hs rfl
  | nil =>
    intro hnext n read s r h hs hr
    cases hs
    rw [List.append_nil]
    exact yields_statementsEnd (hr ▸ hnext) h
  | cons h h' ih ih' =>
    intro hnext n read s r hn hs hr
    obtain ⟨middle, hts, hus⟩ := Leads.append_iff.mp hs
    obtain ⟨statement?, rfl, hstatement⟩ := ih s middle hts (hr ▸ hus.next?_eq_or)
    obtain ⟨t, ts, rfl, ht⟩ := h.exists_cons
    refine yields_statements hts.next?_eq ?_ hstatement
      (fun read h => ih' hnext n read middle r h hus hr) hn
    rintro rfl
    contradiction

end Parser

namespace Procedure

/-- A text is a procedure exactly when its tokens are the statements of it. -/
theorem ofText_eq_ok_iff {text : String} {p : Procedure} :
    ofText text = .ok p ↔
      ∃ ts, Lexer.Reads true text.toList ts [] ∧ Forms .statements none ts p := by
  constructor
  · intro h
    obtain ⟨tokens, htokens, h⟩ := bind_eq_ok.mp h
    obtain ⟨⟨body, rest, hlength⟩, hbody, h⟩ := bind_eq_ok.mp h
    obtain ⟨ts, more, rfl, hts, hmore, -⟩ := Parser.statements_of_ok hbody
    cases rest with
    | nil =>
      cases pure_eq_ok.mp h
      exact ⟨_, Lexer.tokens_ofText_iff.mp ⟨tokens, htokens, Parser.Leads.nil_iff.mp hts⟩, hmore⟩
    | cons => contradiction
  · rintro ⟨ts, hts, hp⟩
    obtain ⟨tokens, htokens, hts⟩ := Lexer.tokens_ofText_iff.mpr hts
    obtain ⟨h, hbody⟩ := Parser.readsPart tokens.stop hp nofun (tokens.lexemes.length + 1) []
      tokens.lexemes [] (Parser.length_lt _) (Parser.Leads.nil_iff.mpr hts) rfl
    rw [ofText, htokens, ok_bind]
    dsimp only
    rw [hbody]
    rfl

/-- The expressions of an accepted text are spelled by its tokens. -/
theorem spelledIn_of_ofText {text : String} {p : Procedure} (h : ofText text = .ok p) :
    ∃ ts, Lexer.Reads true text.toList ts [] ∧ ∀ e ∈ p.expressions, SpelledIn ts e := by
  obtain ⟨ts, hts, hp⟩ := ofText_eq_ok_iff.mp h
  exact ⟨ts, hts, hp.spelledIn⟩

/-- An accepted text assigns only to places. -/
theorem places_of_ofText {text : String} {p : Procedure} (h : ofText text = .ok p) :
    ∀ t ∈ p.targets, t.isPlace = true := by
  obtain ⟨ts, -, hp⟩ := ofText_eq_ok_iff.mp h
  exact hp.places

end Procedure
end Hologram.Script
