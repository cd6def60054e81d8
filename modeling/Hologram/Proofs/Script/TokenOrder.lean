import Mathlib
import Hologram.Proofs.Script.Assignments
import Hologram.Proofs.Script.Derivation

/-! The order of tokens. Parsing an expression drops, repeats and moves none of them: apart from the
parentheses that only group, the tokens of the tree are the tokens of the text. -/
namespace Hologram.Script

namespace Token

/-- Tokens without the parentheses that group. The first argument tells of every open parenthesis,
from the innermost on, whether it is that of a call, which stays. -/
def withoutGroups : List Bool → List Token → List Token
  | calls, .identifier f :: .leftParen :: ts =>
    .identifier f :: .leftParen :: withoutGroups (true :: calls) ts
  | calls, .leftParen :: ts => withoutGroups (false :: calls) ts
  | true :: calls, .rightParen :: ts => .rightParen :: withoutGroups calls ts
  | false :: calls, .rightParen :: ts => withoutGroups calls ts
  | calls, t :: ts => t :: withoutGroups calls ts
  | _, [] => []

def isNumber : Token → Bool
  | int _ | float _ => true
  | _ => false

/-- Somewhere a minus that follows no operand stands before a numeric literal, which may be in
parentheses and has no index. -/
def NegatesNumber (ts : List Token) : Prop :=
  ∃ before k t after,
    ts = before ++ .operator .subtract ::
      (List.replicate k .leftParen ++ t :: (List.replicate k .rightParen ++ after)) ∧
    t.isNumber = true ∧ (∀ u ∈ before.getLast?, u.endsOperand = false) ∧
    after.head? ≠ some .leftBracket

theorem withoutGroups_cons {t : Token} {ts : List Token} (calls : List Bool)
    (hopen : t ≠ .leftParen) (hclose : t ≠ .rightParen)
    (hname : ∀ f, t = .identifier f → ts.head? ≠ some .leftParen) :
    withoutGroups calls (t :: ts) = t :: withoutGroups calls ts := by
  rw [withoutGroups]
  · rintro f us rfl rfl
    exact hname f rfl rfl
  · exact hopen
  · rintro _ - rfl
    exact hclose rfl
  · rintro _ - rfl
    exact hclose rfl

/-- A token that is no name and no parenthesis stays. -/
theorem withoutGroups_plain {t : Token} {ts : List Token} (calls : List Bool)
    (ht : t ≠ .leftParen ∧ t ≠ .rightParen ∧ ∀ f, t ≠ .identifier f) :
    withoutGroups calls (t :: ts) = t :: withoutGroups calls ts :=
  withoutGroups_cons calls ht.1 ht.2.1 fun f hf => absurd hf (ht.2.2 f)

/-- Tokens without a parenthesis stay as they are. -/
theorem withoutGroups_append {ts after : List Token} (calls : List Bool)
    (hopen : .leftParen ∉ ts) (hclose : .rightParen ∉ ts)
    (hafter : after.head? ≠ some .leftParen) :
    withoutGroups calls (ts ++ after) = ts ++ withoutGroups calls after := by
  induction ts with
  | nil => rfl
  | cons t ts ih =>
    obtain ⟨ht, hts⟩ := not_or.mp (mt List.mem_cons.mpr hopen)
    obtain ⟨ht', hts'⟩ := not_or.mp (mt List.mem_cons.mpr hclose)
    rw [List.cons_append, withoutGroups_cons calls (Ne.symm ht) (Ne.symm ht'), ih hts hts',
      List.cons_append]
    rintro f -
    cases ts with
    | nil => exact hafter
    | cons u ts =>
      rintro ⟨⟩
      exact hts (.head _)

/-- Two parts with a token between them that stays. -/
theorem withoutGroups_between {t : Token} {ts us after first second : List Token}
    {calls : List Bool} (ht : t ≠ .leftParen ∧ t ≠ .rightParen ∧ ∀ f, t ≠ .identifier f)
    (hfirst : withoutGroups calls (ts ++ t :: (us ++ after)) =
      first ++ withoutGroups calls (t :: (us ++ after)))
    (hsecond : withoutGroups calls (us ++ after) = second ++ withoutGroups calls after) :
    withoutGroups calls ((ts ++ t :: us) ++ after) =
      (first ++ t :: second) ++ withoutGroups calls after := by
  calc _ = withoutGroups calls (ts ++ t :: (us ++ after)) := by
        rw [List.append_assoc, List.cons_append]
    _ = first ++ t :: (second ++ withoutGroups calls after) := by
        rw [hfirst, withoutGroups_plain calls ht, hsecond]
    _ = (first ++ t :: second) ++ withoutGroups calls after := by
        rw [List.append_assoc, List.cons_append]

/-- Where neither a literal nor a parenthesis follows a minus, none is negated. -/
theorem not_negatesNumber_of_isChain {ts : List Token}
    (h : ts.IsChain fun t u => t = .operator .subtract → u.isNumber = false ∧ u ≠ .leftParen) :
    ¬ NegatesNumber ts := by
  rintro ⟨before, k, t, after, rfl, ht, -, -⟩
  have hminus := (List.isChain_append.mp h).2.1
  cases k with
  | zero => exact absurd ht (by simp [((List.isChain_cons_cons.mp hminus).1 rfl).1])
  | succ k => exact ((List.isChain_cons_cons.mp hminus).1 rfl).2 rfl

end Token

open Token

namespace Expression

def isNumber : Expression → Bool
  | int _ | float _ => true
  | _ => false

theorem negate_eq_unary {e : Expression} (h : e.isNumber = false) :
    e.negate = unary .negate e := by
  cases e <;> first | rfl | contradiction

theorem isNumber_negate (e : Expression) : e.negate.isNumber = e.isNumber := by
  cases e <;> rfl

theorem yieldAll_append_singleton (es : List Expression) (e : Expression) :
    yieldAll (es ++ [e]) = es.flatMap (fun e => e.yield ++ [.comma]) ++ e.yield := by
  induction es with
  | nil => rw [List.nil_append, yieldAll, List.flatMap_nil, List.nil_append]
  | cons first es ih =>
    have hmore : yieldAll (first :: (es ++ [e])) =
        first.yield ++ .comma :: yieldAll (es ++ [e]) := by
      rw [yieldAll]
      simp
    rw [List.cons_append, hmore, ih, List.flatMap_cons]
    simp

end Expression

theorem Position.not_mem {before after : Option Accessor} {ts : List Token}
    (h : Position before ts after) : Token.leftParen ∉ ts ∧ Token.rightParen ∉ ts := by
  cases h <;> simp

theorem Adjustment.not_mem {ts : List Token} {adjustment : Option (BinaryOperator × Constant)}
    (h : Adjustment ts adjustment) : Token.leftParen ∉ ts ∧ Token.rightParen ∉ ts := by
  cases h <;> simp

namespace Level

/-- The tokens that an expression has at a level. -/
def yield : Level → Expression → List Token
  | opened, .call f arguments =>
    .identifier f :: .leftParen :: arguments.flatMap fun e => e.yield ++ [.comma]
  | filled, .call f arguments => .identifier f :: .leftParen :: Expression.yieldAll arguments
  | _, e => e.yield

/-- The open parentheses after an expression at a level. -/
def calls (level : Level) (calls : List Bool) : List Bool :=
  if level.isWhole then calls else true :: calls

/-- Whether an index after what is derived at a level belongs to a part of it. -/
def isIndexed : Level → Bool
  | opened | postfixed | primary => true
  | _ => false

/-- Some tokens stand where an expression may begin, and what follows them is no part of it. -/
structure Fits (level : Level) (whole before ts after : List Token) : Prop where
  eq : before ++ (ts ++ after) = whole
  starts : ∀ t ∈ before.getLast?, t.endsOperand = false
  name : level ≠ opened → after.head? ≠ some .leftParen
  operand : level.isIndexed = false → after.head? ≠ some .leftBracket

/-- After a token that ends no operand an expression may begin. -/
theorem Fits.of_cons {level : Level} {whole before ts after : List Token} {t : Token}
    (ht : t.endsOperand = false) (heq : before ++ t :: (ts ++ after) = whole)
    (hname : level ≠ opened → after.head? ≠ some .leftParen)
    (hoperand : level.isIndexed = false → after.head? ≠ some .leftBracket) :
    level.Fits whole (before ++ [t]) ts after := by
  refine ⟨by rw [← heq, List.append_assoc, List.singleton_append], ?_, hname, hoperand⟩
  rw [List.getLast?_concat]
  rintro _ ⟨⟩
  exact ht

/-- What begins where an expression does and is all of it fits there, too. -/
theorem Fits.part {level part : Level} {whole before ts after : List Token}
    (h : level.Fits whole before ts after) (hlevel : level ≠ opened)
    (hindexed : part.isIndexed = false → level.isIndexed = false) :
    part.Fits whole before ts after :=
  ⟨h.eq, h.starts, fun _ => h.name hlevel, fun hpart => h.operand (hindexed hpart)⟩

/-- Before a token that continues no part there is room for one. -/
theorem Fits.first {level part : Level} {whole before ts us after : List Token} {t : Token}
    (h : level.Fits whole before (ts ++ t :: us) after) (hopen : t ≠ .leftParen)
    (hbracket : part.isIndexed = false → t ≠ .leftBracket) :
    part.Fits whole before ts (t :: (us ++ after)) where
  eq := by rw [← h.eq, List.append_assoc, List.cons_append]
  starts := h.starts
  name _ := fun heq => hopen (Option.some.inj heq)
  operand hpart := fun heq => hbracket hpart (Option.some.inj heq)

/-- Behind a token that ends no operand there is room for another part. -/
theorem Fits.second {level part : Level} {whole before ts us after : List Token} {t : Token}
    (h : level.Fits whole before (ts ++ t :: us) after) (ht : t.endsOperand = false)
    (hlevel : level ≠ opened) (hindexed : part.isIndexed = false → level.isIndexed = false) :
    part.Fits whole (before ++ ts ++ [t]) us after := by
  refine .of_cons ht ?_ (fun _ => h.name hlevel) fun hpart => h.operand (hindexed hpart)
  rw [← h.eq, List.append_assoc, List.append_assoc, List.cons_append]

/-- A minus before a numeric literal negates it where an expression may begin. -/
theorem Fits.negatesNumber {level : Level} {whole before after : List Token} {k : Nat} {t : Token}
    (h : level.Fits whole before (.operator .subtract ::
      (List.replicate k .leftParen ++ t :: List.replicate k .rightParen)) after)
    (ht : t.isNumber = true) (hlevel : level.isIndexed = false) : NegatesNumber whole := by
  refine ⟨before, k, t, after, ?_, ht, h.starts, h.operand hlevel⟩
  rw [← h.eq, List.cons_append, List.append_assoc, List.cons_append]

end Level

namespace Derives

variable {level : Level} {whole ts : List Token} {e : Expression}

/-- A part of a call is one. -/
theorem exists_call (h : Derives level ts e) (hlevel : level.isWhole = false) :
    ∃ f arguments, e = .call f arguments := by
  induction h with
  | call | argument => exact ⟨_, _, rfl⟩
  | comma _ ih => exact ih rfl
  | _ => contradiction

/-- Where an argument may stand, no operand has ended. -/
theorem getLast?_eq_of_opened (h : Derives .opened ts e) :
    ∃ t, ts.getLast? = some t ∧ t.endsOperand = false := by
  cases h with
  | call => exact ⟨.leftParen, rfl, rfl⟩
  | comma => exact ⟨.comma, List.getLast?_concat, rfl⟩

/-- Where no literal is negated, an expression that is a numeric literal is spelled as one, possibly
in parentheses. -/
theorem eq_replicate_of_isNumber (hnegates : ¬ NegatesNumber whole) (h : Derives level ts e)
    (before after : List Token) (hfits : level.Fits whole before ts after)
    (he : e.isNumber = true) :
    ∃ k t, t.isNumber = true ∧
      ts = List.replicate k .leftParen ++ t :: List.replicate k .rightParen := by
  induction h generalizing before after with
  | int | float => exact ⟨0, _, rfl, rfl⟩
  | postfixed _ ih => exact ih _ _ (hfits.part (by simp) (by simp [Level.isIndexed])) he
  | unary _ ih => exact ih _ _ (hfits.part (by simp) (by simp [Level.isIndexed])) he
  | operand _ ih | condition _ ih =>
    exact ih _ _ (hfits.part (by simp) (by simp [Level.isIndexed])) he
  | @group _ ts _ _ ih =>
    obtain ⟨k, t, ht, rfl⟩ := ih (before ++ [.leftParen]) (.rightParen :: after)
      (.of_cons rfl (by simp [← hfits.eq]) (by simp) (by simp)) he
    refine ⟨k + 1, t, ht, ?_⟩
    rw [List.replicate_succ, List.replicate_succ', List.cons_append, List.append_assoc,
      List.cons_append]
  | @negate ts e _ ih =>
    rw [Expression.isNumber_negate] at he
    obtain ⟨k, t, ht, rfl⟩ := ih _ _ (.of_cons (t := .operator .subtract) rfl hfits.eq
      (fun _ => hfits.name (by simp)) (fun _ => hfits.operand rfl)) he
    exact absurd (hfits.negatesNumber ht rfl) hnegates
  | closeOpened h | closeFilled h =>
    obtain ⟨f, arguments, rfl⟩ := h.exists_call rfl
    contradiction
  | comma h =>
    obtain ⟨f, arguments, rfl⟩ := h.exists_call rfl
    contradiction
  | _ => contradiction

/-- The tokens of an expression are those of its tree, in every place of an expression without a
trailing comma and without a negated literal. -/
theorem withoutGroups_eq (htrailing : ¬ [.comma, .rightParen] <:+: whole)
    (hnegates : ¬ NegatesNumber whole) (h : Derives level ts e) (before after : List Token)
    (hfits : level.Fits whole before ts after) (calls : List Bool) :
    withoutGroups calls (ts ++ after) =
      level.yield e ++ withoutGroups (level.calls calls) after := by
  induction h generalizing before after calls with
  | int | float | bool | string => exact withoutGroups_plain _ (by simp)
  | name x =>
    exact withoutGroups_cons _ (by simp) (by simp) fun _ _ => hfits.name (by simp)
  | @placeholder text ts us accessor adjustment hp ha =>
    refine (withoutGroups_append calls ?_ ?_ (hfits.name (by simp))).trans ?_
    · simp [hp.not_mem, ha.not_mem]
    · simp [hp.not_mem, ha.not_mem]
    · rw [← Placeholder.yield_eq hp ha]
      rfl
  | @group opens ts e _ ih =>
    have hinner := ih (before ++ [.leftParen]) (.rightParen :: after)
      (.of_cons rfl (by simp [← hfits.eq]) (by simp) (by simp))
      (false :: calls)
    rw [List.cons_append, List.append_assoc, withoutGroups, List.singleton_append, hinner]
    rfl
  | call f => rfl
  | @argument opens f arguments ts us e h _ ih ihe =>
    obtain ⟨t, hlast, ht⟩ := h.getLast?_eq_of_opened
    rw [List.append_assoc, ih before (us ++ after)
      ⟨by simp [← hfits.eq], hfits.starts, by simp, by simp [Level.isIndexed]⟩]
    rw [ihe (before ++ ts) after
      ⟨by simp [← hfits.eq], by simp [hlast, ht], fun _ => hfits.name (by simp),
        fun _ => hfits.operand rfl⟩]
    simp [Level.yield, Expression.yieldAll_append_singleton, Level.calls, Level.isWhole]
  | @comma ts e h ih =>
    have hfilled := ih before (.comma :: after) (hfits.first (by simp) (by simp)) calls
    rw [List.append_assoc, List.singleton_append, hfilled]
    cases h with
    | argument =>
      rw [withoutGroups_plain (t := .comma) _ (by simp)]
      simp [Level.yield, Expression.yieldAll_append_singleton, Level.calls, Level.isWhole]
  | @closeOpened ts e h ih =>
    have hopened := ih before (.rightParen :: after) (hfits.first (by simp) (by simp)) calls
    rw [List.append_assoc, List.singleton_append, hopened]
    cases h with
    | call f => rfl
    | @comma ts =>
      refine absurd ⟨before ++ ts, after, ?_⟩ htrailing
      simp [← hfits.eq]
  | @closeFilled ts e h ih =>
    have hfilled := ih before (.rightParen :: after) (hfits.first (by simp) (by simp)) calls
    obtain ⟨f, arguments, rfl⟩ := h.exists_call rfl
    rw [List.append_assoc, List.singleton_append, hfilled]
    simp [Level.yield, Level.calls, Level.isWhole, Expression.yield, withoutGroups]
  | postfixed _ ih => exact ih _ _ (hfits.part (by simp) (by simp [Level.isIndexed])) calls
  | @index opens ts us target position _ _ iht ihp =>
    have hbehind : Level.Fits .postfixed whole _ (us ++ [.rightBracket]) after :=
      hfits.second rfl (by simp) id
    have hposition : withoutGroups calls ((us ++ [.rightBracket]) ++ after) =
        (position.yield ++ [.rightBracket]) ++ withoutGroups calls after :=
      @withoutGroups_between .rightBracket us [] after position.yield [] calls (by simp)
        (ihp _ _ (hbehind.first (by simp) (by simp)) calls) rfl
    exact withoutGroups_between (by simp)
      (iht _ _ (hfits.first (by simp) (by simp [Level.isIndexed])) calls) hposition
  | unary _ ih => exact ih _ _ (hfits.part (by simp) (by simp [Level.isIndexed])) calls
  | @not ts e _ ih =>
    have hoperand := ih _ _ (.of_cons (t := .bang) rfl hfits.eq (fun _ => hfits.name (by simp))
      (fun _ => hfits.operand rfl)) calls
    rw [List.cons_append, withoutGroups_plain (t := .bang) _ (by simp), hoperand]
    rfl
  | @negate ts e h ih =>
    have hstarts : Level.Fits .unary whole (before ++ [.operator .subtract]) ts after :=
      .of_cons rfl hfits.eq (fun _ => hfits.name (by simp)) (fun _ => hfits.operand rfl)
    have hnumber : e.isNumber = false := by
      by_contra hnumber
      obtain ⟨k, t, ht, rfl⟩ :=
        h.eq_replicate_of_isNumber hnegates _ _ hstarts (Bool.not_eq_false _ ▸ hnumber)
      exact hnegates (hfits.negatesNumber ht rfl)
    rw [List.cons_append, withoutGroups_plain (t := .operator .subtract) _ (by simp),
      ih _ _ hstarts, Expression.negate_eq_unary hnumber]
    rfl
  | operand _ ih | condition _ ih =>
    exact ih _ _ (hfits.part (by simp) (by simp [Level.isIndexed])) calls
  | operator _ _ _ iha ihb =>
    exact withoutGroups_between (by simp) (iha _ _ (hfits.first (by simp) (by simp)) calls)
      (ihb _ _ (hfits.second rfl (by simp) fun _ => rfl) calls)
  | @conditional opens ts us vs c s u _ _ _ ihc ihs ihu =>
    have hbranches : Level.Fits (.expression opens) whole _ (us ++ .colon :: vs) after :=
      hfits.second rfl (by simp) id
    have hrest : withoutGroups calls ((us ++ .colon :: vs) ++ after) =
        (s.yield ++ .colon :: u.yield) ++ withoutGroups calls after :=
      withoutGroups_between (by simp) (ihs _ _ (hbranches.first (by simp) (by simp)) calls)
        (ihu _ _ (hbranches.second rfl (by simp) id) calls)
    exact withoutGroups_between (by simp)
      (ihc _ _ (hfits.first (by simp) (by simp)) calls) hrest
  | guarded _ _ ihc ihs =>
    exact withoutGroups_between (by simp) (ihc _ _ (hfits.first (by simp) (by simp)) calls)
      (ihs _ _ (hfits.second rfl (by simp) fun _ => rfl) calls)

end Derives

namespace Expression

variable {text : String} {e : Expression}

/-- The tree of a text has the text's tokens in their order, without the parentheses that only
group. A comma before the end of a call leaves no trace in the tree, and a negated literal is one
literal. -/
theorem yield_ofText (h : ofText text = .ok e) : ∃ ts, tokensOf text = .ok ts ∧
    (¬ [.comma, .rightParen] <:+: ts → ¬ NegatesNumber ts → e.yield = withoutGroups [] ts) := by
  obtain ⟨opens, ts, hts, he⟩ := ofText_eq_ok_iff.mp h
  refine ⟨ts, tokensOf_eq_ok_iff.mpr hts, fun htrailing hnegates => ?_⟩
  have hfits : Level.Fits (.expression opens) ts [] ts [] :=
    ⟨List.append_nil ts, nofun, nofun, nofun⟩
  have heq : withoutGroups [] (ts ++ []) = e.yield ++ [] :=
    he.withoutGroups_eq htrailing hnegates [] [] hfits []
  rw [List.append_nil, List.append_nil] at heq
  exact heq.symm

set_option maxRecDepth 20000 in
/-- Only the parentheses of the call stay. -/
theorem yield_ofText_call :
    let text := "f((a),-$[x.n])"
    let ts : List Token := [.identifier "f", .leftParen, .identifier "a", .comma,
      .operator .subtract, .dollar, .leftBracket, .identifier "x.n", .rightBracket, .rightParen]
    ∃ e, ofText text = .ok e ∧ e.yield = ts := by
  intro text ts
  let negated : Expression := .unary .negate (.placeholder ⟨"x", some (.field "n"), none⟩)
  have htokens : tokensOf text = .ok [.identifier "f", .leftParen, .leftParen, .identifier "a",
      .rightParen, .comma, .operator .subtract, .dollar, .leftBracket, .identifier "x.n",
      .rightBracket, .rightParen] := by
    dsimp only [text]
    cbv
  have hname : Derives (.expression false) [.identifier "a"] (.name "a") := .of_primary (.name "a")
  have hgroup : Derives (.expression false) [.leftParen, .identifier "a", .rightParen]
      (.name "a") :=
    .of_primary (.group hname)
  have hplaceholder : Derives .primary _ _ :=
    @Derives.placeholder "x.n" [] [] _ _ (.missing _) .missing
  have hnegated : Derives (.expression false) _ negated :=
    .condition (.operand (.negate (.unary (.postfixed hplaceholder))))
  have h : ofText text = .ok (.call "f" [.name "a", negated]) :=
    ofText_eq_ok_iff.mpr ⟨false, _, tokensOf_eq_ok_iff.mp htokens,
      .of_primary (.closeFilled (.argument (.comma (.argument (.call "f") hgroup)) hnegated))⟩
  obtain ⟨us, hus, heq⟩ := yield_ofText h
  rw [htokens] at hus
  cases hus
  exact ⟨_, h, heq (by decide) (not_negatesNumber_of_isChain (by decide))⟩

end Expression
end Hologram.Script
