import Hologram.Proofs.Script.Splicing

/-! What the text of an expression is read as, and which expressions have a text that can be
read. -/
namespace Hologram.Script
namespace Expression

mutual

/-- An expression and all the expressions it is made of. -/
def parts : Expression → List Expression
  | call function arguments => call function arguments :: partsOfAll arguments
  | index target position => index target position :: (parts target ++ parts position)
  | binary operator first second => binary operator first second :: (parts first ++ parts second)
  | unary operator operand => unary operator operand :: parts operand
  | conditional condition satisfied unsatisfied =>
    conditional condition satisfied unsatisfied ::
      (parts condition ++ parts satisfied ++ parts unsatisfied)
  | guarded condition satisfied =>
    guarded condition satisfied :: (parts condition ++ parts satisfied)
  | leaf => [leaf]

def partsOfAll : List Expression → List Expression
  | [] => []
  | e :: es => parts e ++ partsOfAll es

end

mutual

/-- What the text of an expression is read as. Code is read, and a minus sign before a literal
belongs to the literal. -/
def settled : Expression → Expression
  | raw code => match ofText code with
    | .ok e => e
    | .error _ => raw code
  | call function arguments => call function (settledAll arguments)
  | index target position => index (settled target) (settled position)
  | binary operator first second => binary operator (settled first) (settled second)
  | unary .not operand => unary .not (settled operand)
  | unary .negate operand => (settled operand).negate
  | conditional condition satisfied unsatisfied =>
    conditional (settled condition) (settled satisfied) (settled unsatisfied)
  | guarded condition satisfied => guarded (settled condition) (settled satisfied)
  | leaf => leaf

def settledAll : List Expression → List Expression
  | [] => []
  | e :: es => settled e :: settledAll es

end

theorem settled_binary (operator : BinaryOperator) (first second : Expression) :
    (binary operator first second).settled = binary operator first.settled second.settled := by
  rw [settled]

def FreeOfComments (text : String) : Prop :=
  ∃ ts, Lexer.Reads false text.toList ts []

/-- What an expression adds to its parts can be read from its text. -/
def Legible : Expression → Prop
  | int n => Number.Width.bits64.least < n ∧ n ≤ Number.Width.bits64.greatest
  | string text => '\'' ∉ text.toList
  | name x => Lexer.isName x = true
  | call function _ => Lexer.isName function = true
  | raw code => (∃ e, ofText code = .ok e) ∧ '"' ∉ code.toList ∧ FreeOfComments code
  | float _ | indefinite | placeholder _ => False
  | _ => True

/-- Whether no operand follows a minus sign with a minus sign of its own, and no index follows a
negative literal. -/
def signsApart : Expression → Bool
  | binary .subtract _ second =>
    (second.asOperand second.text (BinaryOperator.subtract.precedence + 1) true).toList.head? !=
      some '-'
  | unary .negate operand =>
    (operand.asOperand operand.text unaryPrecedence true).toList.head? != some '-'
  | index (int n) _ => 0 ≤ n
  | _ => true

/-- What an expression that was read adds to its parts. -/
def Native : Expression → Prop
  | int n => -Number.Width.bits64.greatest ≤ n ∧ n ≤ Number.Width.bits64.greatest
  | name x => Lexer.isName x = true
  | call function _ => Lexer.isName function = true
  | unary .negate (int _) | unary .negate (float _) => False
  | raw _ | indefinite => False
  | _ => True

end Expression

namespace Token

/-- What a token that was read carries. -/
def Native : Token → Prop
  | int n => 0 ≤ n ∧ n ≤ Number.Width.bits64.greatest
  | identifier x => Lexer.isName x = true
  | _ => True

theorem native_of_isSign {t : Token} (h : t.isSign = true) : t.Native := by
  cases t with
  | int | identifier => contradiction
  | _ => trivial

theorem eq_of_ofWord {word : List Char} {x : String} (h : ofWord word = identifier x) :
    x = String.ofList word := by
  have hmem := ofWord_mem word
  rw [h] at hmem
  simpa [ofWords] using hmem

end Token

namespace Lexer

theorem native_of_word {c : Char} {cs : List Char} (hc : isNameStart c = true)
    (hcs : ∀ d ∈ cs, isNamePart d = true) : (Token.ofWord (c :: cs)).Native := by
  cases hword : Token.ofWord (c :: cs) with
  | identifier x =>
    obtain rfl := Token.eq_of_ofWord hword
    change isName (String.ofList (c :: cs)) = true
    unfold isName
    rw [String.toList_ofList]
    simpa [hc, hword] using hcs
  | int n =>
    have hmem := Token.ofWord_mem (c :: cs)
    rw [hword] at hmem
    exact absurd hmem (by simp [Token.ofWords])
  | _ => trivial

theorem native_of_step {c : Char} {cs : List Char} {t : Token} {k : Nat}
    (h : step c cs = .ok (some t, k)) : t.Native := by
  generalize ht : some t = token? at h
  cases shape_of_step h with
  | punctuation hp =>
    cases ht
    have hnative : ∀ entry ∈ punctuations, entry.2.Native := by
      simp [punctuations, Token.Native]
    exact hnative _ (mem_punctuations hp)
  | blank => contradiction
  | quotation =>
    cases ht
    trivial
  | number _ hnumber =>
    subst ht
    obtain ⟨-, -, ⟨n, ⟨⟩, hn⟩ | ⟨x, ⟨⟩⟩⟩ := number_of_ok hnumber
    · exact ⟨Int.natCast_nonneg n, hn⟩
    · trivial
  | fraction =>
    cases ht
    trivial
  | word hstart =>
    cases ht
    exact native_of_word hstart (List.all_eq_true.mp List.all_takeWhile)
  | sign hsign =>
    subst ht
    exact Token.native_of_isSign (sign_of_ok hsign).1

theorem Reads.native {comments : Bool} {cs rest : List Char} {ts : List Token}
    (h : Reads comments cs ts rest) : ∀ t ∈ ts, t.Native := by
  induction h with
  | done => nofun
  | blank _ _ ih => exact ih
  | comment _ _ _ _ ih => exact ih
  | token hs _ ih =>
    intro t ht
    rcases List.mem_cons.mp ht with rfl | ht
    · exact native_of_step hs
    · exact ih t ht

end Lexer

namespace Expression

theorem partsOfAll_append (es fs : List Expression) :
    partsOfAll (es ++ fs) = partsOfAll es ++ partsOfAll fs := by
  induction es with
  | nil => rfl
  | cons e es ih => simp only [List.cons_append, partsOfAll, ih, List.append_assoc]

theorem parts_negate (e : Expression) :
    e.negate.parts = [e.negate] ∨ e.negate.parts = e.negate :: e.parts := by
  cases e with
  | int | float => exact .inl rfl
  | _ => exact .inr rfl

end Expression

/-- An expression that some of the tokens spell. -/
def PartOf (ts : List Token) (d : Expression) : Prop :=
  ∃ level us, us ⊆ ts ∧ Derives level us d

theorem PartOf.forall_mono {ts us : List Token} {ds : List Expression}
    (h : ∀ d ∈ ds, PartOf us d) (hus : ∀ t ∈ us, t ∈ ts) : ∀ d ∈ ds, PartOf ts d := by
  intro d hd
  obtain ⟨level, vs, hvs, he⟩ := h d hd
  exact ⟨level, vs, fun t ht => hus t (hvs ht), he⟩

namespace Derives
open Expression

theorem partOf {level : Level} {ts : List Token} {e : Expression} (h : Derives level ts e) :
    PartOf ts e :=
  ⟨level, ts, List.Subset.refl ts, h⟩

/-- Every part of an expression is spelled by some of its tokens. -/
theorem partOf_of_mem {level : Level} {ts : List Token} {e : Expression} (h : Derives level ts e) :
    ∀ d ∈ e.parts, PartOf ts d := by
  induction h with
  | int n => exact List.forall_mem_singleton.mpr (Derives.int n).partOf
  | float x => exact List.forall_mem_singleton.mpr (Derives.float x).partOf
  | bool b => exact List.forall_mem_singleton.mpr (Derives.bool b).partOf
  | string text => exact List.forall_mem_singleton.mpr (Derives.string text).partOf
  | name x => exact List.forall_mem_singleton.mpr (Derives.name x).partOf
  | placeholder hp ha => exact List.forall_mem_singleton.mpr (Derives.placeholder hp ha).partOf
  | call f => exact List.forall_mem_singleton.mpr (Derives.call f).partOf
  | postfixed _ ih | unary _ ih | operand _ ih | condition _ ih => exact ih
  | group _ ih | comma _ ih | closeOpened _ ih | closeFilled _ ih =>
    exact .forall_mono ih fun t ht => by simp [ht]
  | argument hf he ihf ihe =>
    simp only [parts, partsOfAll_append, partsOfAll, List.append_nil, List.forall_mem_cons,
      List.forall_mem_append] at ihf ⊢
    exact ⟨(hf.argument he).partOf, .forall_mono ihf.2 fun t ht => by simp [ht],
      .forall_mono ihe fun t ht => by simp [ht]⟩
  | not h ih =>
    exact List.forall_mem_cons.mpr ⟨h.not.partOf, .forall_mono ih fun t ht => .tail _ ht⟩
  | @negate ts e h ih =>
    rcases parts_negate e with hparts | hparts
    · rw [hparts]
      exact List.forall_mem_singleton.mpr h.negate.partOf
    · rw [hparts]
      exact List.forall_mem_cons.mpr ⟨h.negate.partOf, .forall_mono ih fun t ht => .tail _ ht⟩
  | index ht hp iht ihp =>
    simp only [parts, List.forall_mem_cons, List.forall_mem_append]
    exact ⟨(ht.index hp).partOf, .forall_mono iht fun t ht => by simp [ht],
      .forall_mono ihp fun t ht => by simp [ht]⟩
  | operator hk ha hb iha ihb =>
    simp only [parts, List.forall_mem_cons, List.forall_mem_append]
    exact ⟨(Derives.operator hk ha hb).partOf, .forall_mono iha fun t ht => by simp [ht],
      .forall_mono ihb fun t ht => by simp [ht]⟩
  | guarded hc hs ihc ihs =>
    simp only [parts, List.forall_mem_cons, List.forall_mem_append]
    exact ⟨(hc.guarded hs).partOf, .forall_mono ihc fun t ht => by simp [ht],
      .forall_mono ihs fun t ht => by simp [ht]⟩
  | conditional hc hs hu ihc ihs ihu =>
    simp only [parts, List.forall_mem_cons, List.forall_mem_append]
    exact ⟨(hc.conditional hs hu).partOf,
      ⟨.forall_mono ihc fun t ht => by simp [ht],
        .forall_mono ihs fun t ht => by simp [ht]⟩,
      .forall_mono ihu fun t ht => by simp [ht]⟩

/-- What is read from native tokens is native. -/
theorem native_self {level : Level} {ts : List Token} {e : Expression} (h : Derives level ts e)
    (hts : ∀ t ∈ ts, t.Native) : e.Native := by
  induction h with
  | int n =>
    obtain ⟨hnonneg, hgreatest⟩ := hts _ (.head _)
    exact ⟨Int.le_trans (by decide) hnonneg, hgreatest⟩
  | name x | call x => exact hts _ (.head _)
  | group _ ih | comma _ ih | closeOpened _ ih | closeFilled _ ih | argument _ _ ih =>
    exact ih fun t ht => hts t (by simp [ht])
  | postfixed _ ih | unary _ ih | operand _ ih | condition _ ih => exact ih hts
  | @negate ts e _ ih =>
    have he := ih fun t ht => hts t (.tail _ ht)
    cases e with
    | int n => exact ⟨by have := he.2; omega, by have := he.1; omega⟩
    | _ => trivial
  | _ => trivial

/-- Whatever is read from native tokens is made of native expressions. -/
theorem native {level : Level} {ts : List Token} {e : Expression} (h : Derives level ts e)
    (hts : ∀ t ∈ ts, t.Native) : ∀ d ∈ e.parts, d.Native := by
  intro d hd
  obtain ⟨level, us, hus, hspelled⟩ := h.partOf_of_mem d hd
  exact hspelled.native_self fun t ht => hts t (hus ht)

end Derives

namespace Expression

/-- The parts of an expression that a text spells are native. -/
theorem native_of_ofText {text : String} {e : Expression} (h : ofText text = .ok e) :
    ∀ d ∈ e.parts, d.Native := by
  obtain ⟨opens, ts, hts, he⟩ := ofText_eq_ok_iff.mp h
  exact he.native hts.native

mutual

/-- What was read reads as itself. -/
theorem settled_eq_self {e : Expression} (h : ∀ d ∈ e.parts, d.Native) : e.settled = e := by
  cases e with
  | raw code => exact absurd (h _ (.head _)) id
  | call f args =>
    rw [settled, settledAll_eq_self (List.forall_mem_cons.mp h).2]
  | index a b | binary op a b | guarded a b =>
    simp only [parts, List.forall_mem_cons, List.forall_mem_append] at h
    rw [settled, settled_eq_self h.2.1, settled_eq_self h.2.2]
  | conditional a b c =>
    simp only [parts, List.forall_mem_cons, List.forall_mem_append] at h
    rw [settled, settled_eq_self h.2.1.1, settled_eq_self h.2.1.2, settled_eq_self h.2.2]
  | unary op a =>
    simp only [parts, List.forall_mem_cons] at h
    cases op with
    | not => rw [settled, settled_eq_self h.2]
    | negate =>
      rw [settled, settled_eq_self h.2]
      cases a with
      | int | float => exact absurd h.1 id
      | _ => rfl
  | _ => rfl

theorem settledAll_eq_self {es : List Expression} (h : ∀ d ∈ partsOfAll es, d.Native) :
    settledAll es = es := by
  cases es with
  | nil => rfl
  | cons e es =>
    simp only [partsOfAll, List.forall_mem_append] at h
    rw [settledAll, settled_eq_self h.1, settledAll_eq_self h.2]

end

end Expression
end Hologram.Script
