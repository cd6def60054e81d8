import Hologram.Proofs.Script.Grammar
import Hologram.Proofs.Script.Steps

/-! The parser reads what the grammar derives. -/
namespace Hologram.Script
namespace Parser

variable {stop : Nat}

/-- A parse succeeds with a value and the lexemes that are left. -/
def Yields {α : Type} {n : Nat} (parse : Except CompileError (Parsed α n)) (value : α)
    (rest : List Lexeme) : Prop :=
  ∃ h, parse = .ok ⟨value, rest, h⟩

theorem expect_cons (token : Token) (what : String) (offset : Nat) (r : List Lexeme) :
    expect stop token what (⟨token, offset⟩ :: r) = .ok ⟨r, length_lt r⟩ := by
  simp [expect]

theorem yields_expression {s middle r : List Lexeme} {c e : Expression}
    (hc : Yields (binary stop 1 s) c middle)
    (ht : ∀ n h, Yields (conditionalTail stop n c middle h) e r) :
    Yields (expression stop s) e r := by
  obtain ⟨h, hc⟩ := hc
  rw [expression, hc]
  exact ht _ _

theorem yields_conditionalTail {n : Nat} {c : Expression} {s : List Lexeme}
    (hs : next? s ≠ some .question) (h : s.length < n) :
    Yields (conditionalTail stop n c s h) c s := by
  refine ⟨h, ?_⟩
  unfold conditionalTail
  split
  · contradiction
  · rfl

theorem yields_conditional {n : Nat} {c satisfied unsatisfied : Expression} {offset offset' : Nat}
    {s middle r : List Lexeme}
    (hs : Yields (expression stop s) satisfied (⟨.colon, offset'⟩ :: middle))
    (hu : Yields (expression stop middle) unsatisfied r)
    (h : (⟨.question, offset⟩ :: s : List Lexeme).length < n) :
    Yields (conditionalTail stop n c (⟨.question, offset⟩ :: s) h)
      (.conditional c satisfied unsatisfied) r := by
  obtain ⟨h₁, hs⟩ := hs
  obtain ⟨h₂, hu⟩ := hu
  unfold conditionalTail
  dsimp only
  rw [hs]
  dsimp only [ok_bind]
  rw [hu]
  exact ⟨_, rfl⟩

theorem yields_guarded {n : Nat} {c satisfied : Expression} {offset : Nat}
    {s r : List Lexeme} (hs : Yields (expression stop s) satisfied r)
    (hr : next? r ≠ some .colon) (h : (⟨.question, offset⟩ :: s : List Lexeme).length < n) :
    Yields (conditionalTail stop n c (⟨.question, offset⟩ :: s) h) (.guarded c satisfied) r := by
  obtain ⟨h₁, hs⟩ := hs
  unfold conditionalTail
  dsimp only
  rw [hs]
  dsimp only [ok_bind]
  split
  · contradiction
  · exact ⟨_, rfl⟩

theorem yields_binary {k : Nat} {s middle r : List Lexeme} {first e : Expression}
    (hf : Yields (unary stop s) first middle)
    (ht : ∀ n h, Yields (binaryTail stop n k first middle h) e r) :
    Yields (binary stop k s) e r := by
  obtain ⟨h, hf⟩ := hf
  rw [binary, hf]
  exact ht _ _

theorem yields_binaryTail {n k : Nat} {first : Expression} {s : List Lexeme}
    (hs : ∀ op, next? s = some (.operator op) → op.precedence < k) (h : s.length < n) :
    Yields (binaryTail stop n k first s h) first s := by
  refine ⟨h, ?_⟩
  unfold binaryTail
  split
  · rename_i op offset s _
    rw [if_neg (Nat.not_le_of_lt (hs op rfl))]
  · rfl

theorem yields_operator {n k : Nat} {op : BinaryOperator} {first second e : Expression}
    {offset : Nat} {s middle r : List Lexeme} (hk : k ≤ op.precedence)
    (hb : Yields (binary stop (op.precedence + 1) s) second middle)
    (ht : ∀ n h, Yields (binaryTail stop n k (.binary op first second) middle h) e r)
    (h : (⟨.operator op, offset⟩ :: s : List Lexeme).length < n) :
    Yields (binaryTail stop n k first (⟨.operator op, offset⟩ :: s) h) e r := by
  obtain ⟨h₁, hb⟩ := hb
  unfold binaryTail
  dsimp only
  rw [if_pos hk, hb]
  exact ht _ _

theorem yields_not {operand : Expression} {offset : Nat} {s r : List Lexeme}
    (ho : Yields (unary stop s) operand r) :
    Yields (unary stop (⟨.bang, offset⟩ :: s)) (.unary .not operand) r := by
  obtain ⟨h, ho⟩ := ho
  unfold unary
  dsimp only
  rw [ho]
  exact ⟨_, rfl⟩

theorem yields_negate {operand : Expression} {offset : Nat} {s r : List Lexeme}
    (ho : Yields (unary stop s) operand r) :
    Yields (unary stop (⟨.operator .subtract, offset⟩ :: s)) operand.negate r := by
  obtain ⟨h, ho⟩ := ho
  unfold unary
  dsimp only
  rw [ho]
  exact ⟨_, rfl⟩

theorem yields_unary {e : Expression} {s r : List Lexeme}
    (hs : ∀ t, next? s = some t → t.isSign = false) (h : Yields (postfixed stop s) e r) :
    Yields (unary stop s) e r := by
  unfold unary
  split
  · cases hs _ rfl
  · cases hs _ rfl
  · exact h

theorem yields_postfixed {target e : Expression} {s middle r : List Lexeme}
    (hp : Yields (primary stop s) target middle)
    (ht : ∀ n h, Yields (indexTail stop n target middle h) e r) :
    Yields (postfixed stop s) e r := by
  obtain ⟨h, hp⟩ := hp
  rw [postfixed, hp]
  exact ht _ _

theorem yields_indexTail {n : Nat} {target : Expression} {s : List Lexeme}
    (hs : next? s ≠ some .leftBracket) (h : s.length < n) :
    Yields (indexTail stop n target s h) target s := by
  refine ⟨h, ?_⟩
  unfold indexTail
  split
  · contradiction
  · rfl

theorem yields_index {n : Nat} {target position e : Expression} {offset offset' : Nat}
    {s middle r : List Lexeme}
    (hp : Yields (expression stop s) position (⟨.rightBracket, offset'⟩ :: middle))
    (ht : ∀ n h, Yields (indexTail stop n (.index target position) middle h) e r)
    (h : (⟨.leftBracket, offset⟩ :: s : List Lexeme).length < n) :
    Yields (indexTail stop n target (⟨.leftBracket, offset⟩ :: s) h) e r := by
  obtain ⟨h₁, hp⟩ := hp
  unfold indexTail
  dsimp only
  rw [hp]
  dsimp only [ok_bind]
  rw [expect_cons]
  exact ht _ _

theorem yields_name {x : String} {offset : Nat} {r : List Lexeme}
    (hr : next? r ≠ some .leftParen) :
    Yields (primary stop (⟨.identifier x, offset⟩ :: r)) (.name x) r := by
  unfold primary
  cases r with
  | nil => exact ⟨_, rfl⟩
  | cons l r =>
    obtain ⟨token, offset⟩ := l
    cases token with
    | leftParen => contradiction
    | _ => exact ⟨_, rfl⟩

theorem yields_group {e : Expression} {offset offset' : Nat} {s r : List Lexeme}
    (h : Yields (expression stop s) e (⟨.rightParen, offset'⟩ :: r)) :
    Yields (primary stop (⟨.leftParen, offset⟩ :: s)) e r := by
  obtain ⟨h₁, h⟩ := h
  unfold primary
  dsimp only
  rw [h]
  dsimp only [ok_bind]
  rw [expect_cons]
  exact ⟨_, rfl⟩

theorem yields_call {f : String} {args : List Expression} {offset offset' : Nat}
    {s r : List Lexeme} (h : ∀ n h, Yields (arguments stop n [] s h) args r) :
    Yields (primary stop (⟨.identifier f, offset⟩ :: ⟨.leftParen, offset'⟩ :: s))
      (.call f args) r := by
  obtain ⟨h₁, h⟩ := h (s.length + 1) (length_lt s)
  unfold primary
  dsimp only
  rw [h]
  exact ⟨_, rfl⟩

theorem yields_argumentsEnd {n : Nat} {args : List Expression} {offset : Nat} {r : List Lexeme}
    (h : (⟨.rightParen, offset⟩ :: r : List Lexeme).length < n) :
    Yields (arguments stop n args.reverse (⟨.rightParen, offset⟩ :: r) h) args r := by
  unfold arguments
  rw [List.reverse_reverse]
  exact ⟨_, rfl⟩

theorem yields_argument {n : Nat} {read args : List Expression} {argument : Expression}
    {offset : Nat} {s middle r : List Lexeme} (hs : next? s ≠ some .rightParen)
    (ha : Yields (expression stop s) argument (⟨.comma, offset⟩ :: middle))
    (ht : ∀ n h, Yields (arguments stop n (argument :: read) middle h) args r)
    (h : s.length < n) : Yields (arguments stop n read s h) args r := by
  obtain ⟨h₁, ha⟩ := ha
  unfold arguments
  split
  · contradiction
  · rw [ha]
    exact ht _ _

theorem yields_lastArgument {n : Nat} {args : List Expression} {argument : Expression}
    {offset : Nat} {s r : List Lexeme} (hs : next? s ≠ some .rightParen)
    (ha : Yields (expression stop s) argument (⟨.rightParen, offset⟩ :: r))
    (h : s.length < n) : Yields (arguments stop n args.reverse s h) (args ++ [argument]) r := by
  obtain ⟨h₁, ha⟩ := ha
  unfold arguments
  split
  · contradiction
  · rw [ha]
    dsimp only [ok_bind]
    rw [expect_cons, List.reverse_cons, List.reverse_reverse]
    exact ⟨_, rfl⟩

/-- Some tokens stand at the front of lexemes and leave the rest of them. -/
inductive Leads : List Lexeme → List Token → List Lexeme → Prop where
  | nil {r : List Lexeme} : Leads r [] r
  | cons {t : Token} {offset : Nat} {ts : List Token} {s r : List Lexeme} (h : Leads s ts r) :
      Leads (⟨t, offset⟩ :: s) (t :: ts) r

namespace Leads

variable {s r : List Lexeme} {ts us : List Token}

theorem append_iff :
    Leads s (ts ++ us) r ↔ ∃ middle, Leads s ts middle ∧ Leads middle us r := by
  constructor
  · intro h
    induction ts generalizing s with
    | nil => exact ⟨s, .nil, h⟩
    | cons t ts ih =>
      cases h with
      | cons h =>
        obtain ⟨middle, h₁, h₂⟩ := ih h
        exact ⟨middle, .cons h₁, h₂⟩
  · rintro ⟨middle, h₁, h₂⟩
    induction h₁ with
    | nil => exact h₂
    | cons _ ih => exact .cons (ih h₂)

theorem append {middle : List Lexeme} (h : Leads s ts middle) (h' : Leads middle us r) :
    Leads s (ts ++ us) r :=
  append_iff.mpr ⟨middle, h, h'⟩

theorem next?_eq {t : Token} (h : Leads s (t :: ts) r) : next? s = some t := by
  cases h
  rfl

/-- Lexemes lead to their end through all their tokens. -/
theorem nil_iff : Leads s ts [] ↔ s.map (·.token) = ts := by
  constructor
  · intro h
    generalize hr : ([] : List Lexeme) = r at h
    induction h with
    | nil =>
      rw [← hr]
      rfl
    | cons _ ih => rw [List.map_cons, ih hr]
  · rintro rfl
    induction s with
    | nil => exact .nil
    | cons l s ih => exact .cons ih

end Leads

/-- Lexemes that do not go on with a name or an operand before them. -/
def Closed (r : List Lexeme) : Prop :=
  next? r ≠ some .leftParen ∧ next? r ≠ some .leftBracket

/-- Lexemes before which an expression ends; one that opens does not end before a colon. -/
structure Stops (opens : Bool) (r : List Lexeme) : Prop where
  closed : Closed r
  noOperator : ∀ op, next? r ≠ some (.operator op)
  noQuestion : next? r ≠ some .question
  noColon : opens = true → next? r ≠ some .colon

/-- A token before which every expression ends. -/
theorem Stops.of_next? {opens : Bool} {t : Token} {r : List Lexeme} (hr : next? r = some t)
    (ht : t = .rightParen ∨ t = .rightBracket ∨ t = .comma ∨ t = .semicolon ∨
      (t = .colon ∧ opens = false)) : Stops opens r := by
  constructor <;> simp only [Closed, hr] <;>
    rcases ht with rfl | rfl | rfl | rfl | ⟨rfl, rfl⟩ <;> simp

/-- An expression is read as a condition and what follows it, which is no block in braces. -/
def ReadsExpression (stop : Nat) (s : List Lexeme) (e : Expression) (r : List Lexeme) : Prop :=
  ∃ c middle, Yields (binary stop 1 s) c middle ∧
    (∀ n h, Yields (conditionalTail stop n c middle h) e r) ∧
    (middle = r ∨ ∃ offset s', middle = ⟨.question, offset⟩ :: s' ∧ next? s' ≠ some .leftBrace)

theorem ReadsExpression.yields {s r : List Lexeme} {e : Expression}
    (h : ReadsExpression stop s e r) : Yields (expression stop s) e r := by
  obtain ⟨c, middle, hc, ht, -⟩ := h
  exact yields_expression hc ht

/-- What the parser of a level does with the lexemes of an expression of that level. Where a loop
goes on with what comes after, the parser does what the loop does. -/
def Reading (stop : Nat) : Level → List Token → Expression → Prop
  | .expression opens, ts, e => ∀ s r, Leads s ts r → Stops opens r → ReadsExpression stop s e r
  | .binary k, ts, e => ∀ s r j e' r', Leads s ts r → j ≤ k → Closed r →
    (∀ op, next? r = some (.operator op) → op.precedence ≤ k) →
    (∀ n h, Yields (binaryTail stop n j e r h) e' r') → Yields (binary stop j s) e' r'
  | .unary, ts, e => ∀ s r, Leads s ts r → Closed r → Yields (unary stop s) e r
  | .postfixed, ts, e => ∀ s r e' r', Leads s ts r → next? r ≠ some .leftParen →
    (∀ n h, Yields (indexTail stop n e r h) e' r') → Yields (postfixed stop s) e' r'
  | .primary, ts, e => ∀ s r, Leads s ts r → next? r ≠ some .leftParen →
    Yields (primary stop s) e r
  | .opened, ts, e => ∃ f args, e = .call f args ∧ ∀ s r args' r', Leads s ts r →
    (∀ n h, Yields (arguments stop n args.reverse r h) args' r') →
      Yields (primary stop s) (.call f args') r'
  | .filled, ts, e => ∃ f args, e = .call f args ∧
    (∀ s offset r args' r', Leads s ts (⟨.comma, offset⟩ :: r) →
      (∀ n h, Yields (arguments stop n args.reverse r h) args' r') →
        Yields (primary stop s) (.call f args') r') ∧
    ∀ s offset r, Leads s ts (⟨.rightParen, offset⟩ :: r) → Yields (primary stop s) (.call f args) r

/-- Tokens that an operand after which only brackets may come begins with are no signs. -/
theorem exists_cons_of_tight {level : Level} {ts : List Token} {e : Expression}
    (h : Derives level ts e) (hlevel : level ≠ .unary ∧ (∀ k, level ≠ .binary k) ∧
      ∀ opens, level ≠ .expression opens) : ∃ t rest, ts = t :: rest ∧ t.isSign = false := by
  induction h with
  | int | float | bool | string | name | placeholder | group | call => exact ⟨_, _, rfl, rfl⟩
  | argument _ _ ih | comma _ ih | closeOpened _ ih | closeFilled _ ih | index _ _ ih =>
    obtain ⟨t, rest, rfl, ht⟩ := ih (by simp)
    exact ⟨t, _, rfl, ht⟩
  | postfixed _ ih => exact ih (by simp)
  | unary | not | negate | operand | operator | condition | conditional | guarded =>
    simp at hlevel

theorem yields_accessor {before after : Option Accessor} {ts : List Token} {s r : List Lexeme}
    (h : Position before ts after) (hs : Leads s ts r) (hr : next? r ≠ some .leftBracket) :
    Yields (placeholderAccessor stop before s) after r := by
  cases h with
  | missing =>
    cases hs
    unfold placeholderAccessor
    split <;> first | exact ⟨_, rfl⟩ | contradiction
  | index n | named name =>
    obtain _ | _ | _ | ⟨⟨⟩⟩ := hs
    unfold placeholderAccessor
    dsimp only
    rw [expect_cons]
    exact ⟨_, rfl⟩

theorem yields_adjustment {adjustment : Option (BinaryOperator × Constant)} {ts : List Token}
    {s r : List Lexeme} (h : Adjustment ts adjustment) (hs : Leads s ts r)
    (hr : ∀ t, next? r = some t → t.isSign = false) :
    Yields (placeholderAdjustment s) adjustment r := by
  cases h with
  | missing =>
    cases hs
    unfold placeholderAdjustment
    split
    · cases hr _ rfl
    · cases hr _ rfl
    · exact ⟨_, rfl⟩
  | int hop n | float hop x =>
    obtain _ | _ | ⟨⟨⟩⟩ := hs
    unfold placeholderAdjustment
    dsimp only
    rw [if_pos hop]
    exact ⟨_, rfl⟩

theorem next?_adjustment {adjustment : Option (BinaryOperator × Constant)} {us : List Token}
    {s r : List Lexeme} (h : Adjustment us adjustment)
    (hs : Leads s (us ++ [.rightBracket]) r) : next? s ≠ some .leftBracket := by
  cases h with
  | missing | int | float =>
    rw [hs.next?_eq]
    nofun

theorem yields_placeholder {text : String} {ts us : List Token} {accessor : Option Accessor}
    {adjustment : Option (BinaryOperator × Constant)}
    (hp : Position (placeholderName text).2 ts accessor) (ha : Adjustment us adjustment)
    {s r : List Lexeme}
    (hs : Leads s (.leftBracket :: .identifier text :: (ts ++ us ++ [.rightBracket])) r) :
    Yields (placeholder stop s) ⟨(placeholderName text).1, accessor, adjustment⟩ r := by
  obtain _ | _ | hs := hs
  rw [List.append_assoc] at hs
  obtain ⟨middle, hposition, hs⟩ := Leads.append_iff.mp hs
  obtain ⟨h₁, hp⟩ : Yields (placeholderAccessor stop _ _) _ _ :=
    yields_accessor hp hposition (next?_adjustment ha hs)
  obtain ⟨last, hadjustment, hs⟩ := Leads.append_iff.mp hs
  obtain ⟨h₂, ha⟩ := yields_adjustment ha hadjustment fun t ht => by
    rw [hs.next?_eq] at ht
    cases ht
    rfl
  obtain _ | ⟨⟨⟩⟩ := hs
  unfold placeholder
  rw [expect_cons]
  dsimp only [ok_bind]
  rw [hp]
  dsimp only [ok_bind]
  rw [ha]
  dsimp only [ok_bind]
  rw [expect_cons]
  exact ⟨_, rfl⟩

theorem exists_next? {s r : List Lexeme} {level : Level} {ts : List Token} {e : Expression}
    (h : Derives level ts e) (hs : Leads s ts r) :
    ∃ t, next? s = some t ∧ t.opensOperand = true := by
  obtain ⟨t, rest, rfl, ht⟩ := h.exists_cons
  exact ⟨t, hs.next?_eq, ht⟩

theorem next?_ne {s r : List Lexeme} {level : Level} {ts : List Token} {e : Expression} {t : Token}
    (h : Derives level ts e) (hs : Leads s ts r) (ht : t.opensOperand = false) :
    next? s ≠ some t := by
  obtain ⟨u, hu, hopens⟩ := exists_next? h hs
  rw [hu]
  rintro ⟨⟩
  rw [ht] at hopens
  contradiction

theorem yields_of_reading {k : Nat} {ts : List Token} {e : Expression} {s r : List Lexeme}
    (h : Reading stop (.binary k) ts e) (hs : Leads s ts r) (hr : Closed r)
    (hop : ∀ op, next? r ≠ some (.operator op)) : Yields (binary stop k s) e r :=
  h s r k e r hs (Nat.le_refl k) hr (fun op h => absurd h (hop op)) fun _ hn =>
    yields_binaryTail (fun op h => absurd h (hop op)) hn

variable (stop) in
/-- The parser reads every expression of the grammar up to where it stops. -/
theorem reading {level : Level} {ts : List Token} {e : Expression} (h : Derives level ts e) :
    Reading stop level ts e := by
  induction h with
  | int | float | bool | string =>
    intro s r hs _
    obtain _ | ⟨⟨⟩⟩ := hs
    unfold primary
    exact ⟨_, rfl⟩
  | name x =>
    intro s r hs hr
    obtain _ | ⟨⟨⟩⟩ := hs
    exact yields_name hr
  | placeholder hp ha =>
    intro s r hs _
    obtain _ | hs := hs
    obtain ⟨h, hplaceholder⟩ : Yields (placeholder stop _) _ _ := yields_placeholder hp ha hs
    unfold primary
    dsimp only
    rw [hplaceholder]
    exact ⟨_, rfl⟩
  | group _ ih =>
    intro s r hs _
    obtain _ | hs := hs
    obtain ⟨middle, hs, hclose⟩ := Leads.append_iff.mp hs
    have hinner := ih _ _ hs (.of_next? hclose.next?_eq (.inl rfl))
    obtain _ | ⟨⟨⟩⟩ := hclose
    exact yields_group hinner.yields
  | call f =>
    refine ⟨f, [], rfl, fun s r args' r' hs ht => ?_⟩
    obtain _ | _ | ⟨⟨⟩⟩ := hs
    exact yields_call ht
  | @argument opens f args ts us e h he ih ihe =>
    obtain ⟨_, _, ⟨⟩, ih⟩ := ih
    refine ⟨_, _, rfl, fun s offset r args' r' hs ht => ?_, fun s offset r hs => ?_⟩
    · obtain ⟨middle, hs, hus⟩ := Leads.append_iff.mp hs
      refine ih s middle args' r' hs fun n hn => ?_
      refine yields_argument (next?_ne he hus rfl)
        (ihe _ _ hus (Stops.of_next? rfl (by simp))).yields (fun n hn => ?_) hn
      have := ht n hn
      rwa [List.reverse_append] at this
    · obtain ⟨middle, hs, hus⟩ := Leads.append_iff.mp hs
      refine ih s middle _ r hs fun n hn => ?_
      exact yields_lastArgument (next?_ne he hus rfl)
        (ihe _ _ hus (Stops.of_next? rfl (by simp))).yields hn
  | comma _ ih =>
    obtain ⟨f, args, rfl, ih, -⟩ := ih
    refine ⟨f, args, rfl, fun s r args' r' hs ht => ?_⟩
    obtain ⟨middle, hs, hcomma⟩ := Leads.append_iff.mp hs
    obtain _ | ⟨⟨⟩⟩ := hcomma
    exact ih s _ r args' r' hs ht
  | closeOpened _ ih =>
    obtain ⟨f, args, rfl, ih⟩ := ih
    intro s r hs _
    obtain ⟨middle, hs, hclose⟩ := Leads.append_iff.mp hs
    obtain _ | ⟨⟨⟩⟩ := hclose
    exact ih s _ args r hs fun n hn => yields_argumentsEnd hn
  | closeFilled _ ih =>
    obtain ⟨f, args, rfl, -, ih⟩ := ih
    intro s r hs _
    obtain ⟨middle, hs, hclose⟩ := Leads.append_iff.mp hs
    obtain _ | ⟨⟨⟩⟩ := hclose
    exact ih s _ r hs
  | postfixed _ ih =>
    intro s r e' r' hs hr ht
    exact yields_postfixed (ih s r hs hr) ht
  | index ht hp iht ihp =>
    intro s r e' r' hs hr hnext
    obtain ⟨middle, htarget, hs⟩ := Leads.append_iff.mp hs
    refine iht s middle e' r' htarget (by rw [hs.next?_eq]; nofun) fun n hn => ?_
    obtain _ | hs := hs
    obtain ⟨last, hposition, hclose⟩ := Leads.append_iff.mp hs
    have hinner := ihp _ _ hposition (.of_next? hclose.next?_eq (.inr (.inl rfl)))
    obtain _ | ⟨⟨⟩⟩ := hclose
    exact yields_index hinner.yields hnext hn
  | unary h ih =>
    intro s r hs hr
    obtain ⟨t, rest, rfl, ht⟩ := exists_cons_of_tight h (by simp)
    refine yields_unary (fun u hu => ?_) (ih s r _ r hs hr.1 fun n hn => yields_indexTail hr.2 hn)
    rw [hs.next?_eq] at hu
    cases hu
    exact ht
  | not _ ih =>
    intro s r hs hr
    obtain _ | hs := hs
    exact yields_not (ih _ r hs hr)
  | negate _ ih =>
    intro s r hs hr
    obtain _ | hs := hs
    exact yields_negate (ih _ r hs hr)
  | operand _ ih =>
    intro s r j e' r' hs _ hr _ ht
    exact yields_binary (ih s r hs hr) ht
  | @operator k op ts us first second hk ha hb iha ihb =>
    intro s r j e' r' hs hj hr hop ht
    obtain ⟨middle, hfirst, hs⟩ := Leads.append_iff.mp hs
    obtain _ | hsecond := hs
    refine iha _ _ j e' r' hfirst (Nat.le_trans hj hk) ⟨nofun, nofun⟩ ?_ fun n hn => ?_
    · rintro _ ⟨⟩
      exact Nat.le_refl _
    · refine yields_operator (Nat.le_trans hj hk) ?_ ht hn
      have hlt (op' : BinaryOperator) (h : next? r = some (.operator op')) :
          op'.precedence < op.precedence + 1 :=
        Nat.lt_succ_of_le (Nat.le_trans (hop op' h) hk)
      exact ihb _ r _ _ r hsecond (Nat.le_refl _) hr (fun op' h => Nat.le_of_lt (hlt op' h))
        fun n hn => yields_binaryTail hlt hn
  | condition _ ih =>
    intro s r hs hr
    exact ⟨_, r, yields_of_reading ih hs hr.closed hr.noOperator,
      fun n hn => yields_conditionalTail hr.noQuestion hn, .inl rfl⟩
  | conditional hc hs hu ihc ihs ihu =>
    intro s r hts hr
    obtain ⟨middle, hcondition, hts⟩ := Leads.append_iff.mp hts
    obtain _ | hts := hts
    obtain ⟨last, hsatisfied, hts⟩ := Leads.append_iff.mp hts
    obtain _ | hunsatisfied := hts
    have hinner := (ihs _ _ hsatisfied (.of_next? rfl (by simp))).yields
    exact ⟨_, _, yields_of_reading ihc hcondition ⟨nofun, nofun⟩ fun op => nofun,
      fun n hn => yields_conditional hinner (ihu _ _ hunsatisfied hr).yields hn,
      .inr ⟨_, _, rfl, next?_ne hs hsatisfied rfl⟩⟩
  | guarded hc hs ihc ihs =>
    intro s r hts hr
    obtain ⟨middle, hcondition, hts⟩ := Leads.append_iff.mp hts
    obtain _ | hsatisfied := hts
    have hinner := (ihs _ r hsatisfied
      ⟨hr.closed, hr.noOperator, hr.noQuestion, fun _ => hr.noColon rfl⟩).yields
    exact ⟨_, _, yields_of_reading ihc hcondition ⟨nofun, nofun⟩ fun op => nofun,
      fun n hn => yields_guarded hinner (hr.noColon rfl) hn,
      .inr ⟨_, _, rfl, next?_ne hs hsatisfied rfl⟩⟩

end Parser
end Hologram.Script
