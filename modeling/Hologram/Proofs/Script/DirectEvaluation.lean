import Hologram.Proofs.Script.Counting
import Hologram.Proofs.Script.Hoisting

/-! An expression has the value that its text has. -/
namespace Hologram.Script
namespace Expression

variable {functions : Functions} {store : Store}

/-- What an expression adds to its parts means the same in the tree as in the text. There are two
readings that only the text has: a literal takes the sign before it, and so a zero loses it, and
code that is a variable is the variable, and so it has a fallback. -/
def ReadsAlike (store : Store) : Expression → Prop
  | unary .negate (int n) => n ≠ 0
  | unary .negate (raw code) => ofText code ≠ .ok (int 0)
  | binary .coalesce (raw code) _ => ∀ x, ofText code = .ok (name x) → store.get? x ≠ none
  | e => e.Worded

theorem worded_of_readsAlike {e : Expression} (h : e.ReadsAlike store) : e.Worded := by
  cases e with
  | unary | binary => trivial
  | _ => exact h

@[simp] theorem hoisted_raw (code : String) : (raw code).hoisted = raw code := by
  simp [hoisted]

theorem ofText_of_settled_raw {code : String} {e : Expression} (h : (raw code).settled = e)
    (he : e ≠ raw code) : ofText code = .ok e := by
  rw [settled] at h
  split at h
  · rw [← h]
    assumption
  · exact absurd h.symm he

theorem settled_hoisted_negate (e : Expression) :
    (unary .negate e).hoisted.settled = e.hoisted.settled.negate := by
  rw [hoisted, settled]

theorem settled_hoisted_index (a b : Expression) :
    (∃ c d, (index a b).hoisted.settled = index c d) ∨
      ∃ c d, (index a b).hoisted.settled = unary .negate (index c d) := by
  rw [hoisted]
  split_ifs
  · exact .inr ⟨a.hoisted.unsigned.settled, b.hoisted.settled, by simp [settled, negate]⟩
  · exact .inl ⟨a.hoisted.settled, b.hoisted.settled, by rw [settled]⟩

theorem eq_zero_of_negate {e : Expression} (h : e.negate = int 0) : e = int 0 := by
  cases e with
  | int n =>
    rw [negate, int.injEq, Int.neg_eq_zero] at h
    rw [h]
  | _ => cases h

/-- Only a variable and code that is one are read as a variable. -/
theorem name_of_settled_hoisted {e : Expression} {x : String} (h : e.hoisted.settled = name x) :
    e = name x ∨ ∃ code, e = raw code ∧ ofText code = .ok (name x) := by
  cases e with
  | raw code =>
    rw [hoisted_raw] at h
    exact .inr ⟨code, rfl, ofText_of_settled_raw h (by simp)⟩
  | unary op a =>
    cases op with
    | not => simp [hoisted, settled] at h
    | negate =>
      rw [settled_hoisted_negate] at h
      cases hs : a.hoisted.settled <;> rw [hs] at h <;> cases h
  | index a b =>
    obtain ⟨c, d, hi⟩ | ⟨c, d, hi⟩ := settled_hoisted_index a b <;> rw [hi] at h <;> cases h
  | _ => simp_all [hoisted, settled]

/-- What follows a minus sign is not read as a zero. -/
theorem settled_hoisted_ne_zero {e : Expression} (h : ∀ d ∈ e.parts, d.ReadsAlike store)
    (hsign : (unary .negate e).ReadsAlike store) : e.hoisted.settled ≠ int 0 := by
  intro hzero
  cases e with
  | int n =>
    simp [hoisted, settled] at hzero
    exact hsign hzero
  | raw code =>
    rw [hoisted_raw] at hzero
    exact hsign (ofText_of_settled_raw hzero (by simp))
  | unary op a =>
    cases op with
    | not => simp [hoisted, settled] at hzero
    | negate =>
      rw [settled_hoisted_negate] at hzero
      obtain ⟨hself, ha⟩ := List.forall_mem_cons.mp h
      exact settled_hoisted_ne_zero ha hself (eq_zero_of_negate hzero)
  | index a b =>
    obtain ⟨c, d, hi⟩ | ⟨c, d, hi⟩ := settled_hoisted_index a b <;> rw [hi] at hzero <;> cases hzero
  | _ => simp [hoisted, settled] at hzero

/-- The sign of a literal is the sign of its value, if it is not zero. -/
theorem evaluateWith_negate {e : Expression} (h : e ≠ int 0)
    (rawValue : String → Except EvalError Value) :
    e.negate.evaluateWith functions store rawValue =
      (unary .negate e).evaluateWith functions store rawValue := by
  cases e with
  | int n =>
    have hn : n ≠ 0 := by
      rintro rfl
      exact h rfl
    simp only [negate, evaluateWith, Number.ofInt_neg hn]
    rfl
  | float x =>
    simp only [negate, evaluateWith]
    rfl
  | _ => rfl

/-- What is no variable has no fallback. -/
theorem evaluateWith_coalesce {a : Expression} (ha : ∀ x, a ≠ name x) (b : Expression)
    (rawValue : String → Except EvalError Value) :
    (binary .coalesce a b).evaluateWith functions store rawValue =
      a.evaluateWith functions store rawValue := by
  rw [evaluateWith]
  exact ha

/-- A variable with a value has no use for a fallback. -/
theorem evaluateWith_coalesce_of_get? {x : String} (hx : store.get? x ≠ none) (b : Expression)
    (rawValue : String → Except EvalError Value) :
    (binary .coalesce (name x) b).evaluateWith functions store rawValue =
      (name x).evaluateWith functions store rawValue := by
  obtain ⟨value, hvalue⟩ := Option.ne_none_iff_exists'.mp hx
  simp only [evaluateWith, variableValue, hvalue, Option.getD_some]

/-- A fallback is taken in the text when it is taken in the tree. -/
theorem evaluateWith_coalesce_settled_hoisted {a b : Expression}
    (h : (binary .coalesce a b).ReadsAlike store)
    {rawValue rawValue' : String → Except EvalError Value}
    (ha : a.hoisted.settled.evaluateWith functions store rawValue =
      a.evaluateWith functions store rawValue')
    (hb : b.hoisted.settled.evaluateWith functions store rawValue =
      b.evaluateWith functions store rawValue') :
    (binary .coalesce a b).hoisted.settled.evaluateWith functions store rawValue =
      (binary .coalesce a b).evaluateWith functions store rawValue' := by
  rw [hoisted, settled_binary]
  by_cases hname : ∃ x, a.hoisted.settled = name x
  · obtain ⟨x, hx⟩ := hname
    obtain rfl | ⟨code, rfl, hcode⟩ := name_of_settled_hoisted hx
    · rw [hx]
      simp only [evaluateWith, hb]
    · have hcode' : ∀ y, raw code ≠ name y := fun y => by simp
      rw [evaluateWith_coalesce hcode', ← ha, hx,
        evaluateWith_coalesce_of_get? (h x hcode)]
  · have hsettled : ∀ x, a.hoisted.settled ≠ name x := fun x hx => hname ⟨x, hx⟩
    have hself : ∀ x, a ≠ name x := by
      rintro x rfl
      exact hsettled x (by simp [hoisted, settled])
    rw [evaluateWith_coalesce hsettled, evaluateWith_coalesce hself, ha]

mutual

/-- What the text of an expression is read as has the value of the expression. -/
theorem evaluateWith_settled_hoisted {e : Expression} (h : ∀ d ∈ e.parts, d.ReadsAlike store)
    (rawValue : String → Except EvalError Value) :
    e.hoisted.settled.evaluateWith functions store rawValue =
      e.evaluateWith functions store (evaluateText functions store) := by
  cases e with
  | raw code =>
    obtain ⟨⟨t, ht⟩, -⟩ : (raw code).Legible := h _ (.head _)
    rw [hoisted_raw, evaluateWith_settled_raw ht, evaluateWith]
  | call f es =>
    have hes := evaluateAllWith_settled_hoisted (List.forall_mem_cons.mp h).2 rawValue
    simp only [hoisted, settled, evaluateWith, hes]
  | index a b =>
    -- No value can be indexed, and neither can the opposite of what is indexed have a value.
    obtain ⟨c, d, hi⟩ | ⟨c, d, hi⟩ := settled_hoisted_index a b
    · simp only [hi, evaluateWith]
    · simp only [hi, evaluateWith]
      rfl
  | binary op a b =>
    simp only [parts, List.forall_mem_cons, List.forall_mem_append] at h
    have ha := evaluateWith_settled_hoisted h.2.1 rawValue
    have hb := evaluateWith_settled_hoisted h.2.2 rawValue
    cases op with
    | coalesce => exact evaluateWith_coalesce_settled_hoisted h.1 ha hb
    | _ => simp only [hoisted, settled, evaluateWith, ha, hb]
  | unary op a =>
    simp only [parts, List.forall_mem_cons] at h
    have ha := evaluateWith_settled_hoisted h.2 rawValue
    cases op with
    | not => simp only [hoisted, settled, evaluateWith, ha]
    | negate =>
      rw [settled_hoisted_negate, evaluateWith_negate (settled_hoisted_ne_zero h.2 h.1)]
      simp only [evaluateWith, ha]
  | conditional c s u =>
    simp only [parts, List.forall_mem_cons, List.forall_mem_append] at h
    simp only [hoisted, settled, evaluateWith, evaluateWith_settled_hoisted h.2.1.1,
      evaluateWith_settled_hoisted h.2.1.2, evaluateWith_settled_hoisted h.2.2]
  | guarded c s =>
    simp only [parts, List.forall_mem_cons, List.forall_mem_append] at h
    simp only [hoisted, settled, evaluateWith, evaluateWith_settled_hoisted h.2.1,
      evaluateWith_settled_hoisted h.2.2]
  | _ => simp [hoisted, settled, evaluateWith]

theorem evaluateAllWith_settled_hoisted {es : List Expression}
    (h : ∀ d ∈ partsOfAll es, d.ReadsAlike store) (rawValue : String → Except EvalError Value) :
    evaluateAllWith functions store rawValue (settledAll (hoistedAll es)) =
      evaluateAllWith functions store (evaluateText functions store) es := by
  cases es with
  | nil => rfl
  | cons e es =>
    simp only [partsOfAll, List.forall_mem_append] at h
    have he := evaluateWith_settled_hoisted h.1 rawValue
    have hes := evaluateAllWith_settled_hoisted h.2 rawValue
    simp only [hoistedAll, settledAll, evaluateAllWith, he, hes]

end

/-- An expression has the value that its text has, if the text is read. -/
theorem evaluateText_text {e t : Expression} (h : ∀ d ∈ e.parts, d.ReadsAlike store)
    (ht : ofText e.text = .ok t) :
    evaluateText functions store e.text = e.evaluate functions store := by
  rw [← evaluateWith_of_evaluateText ht (evaluateText functions store),
    eq_settled_hoisted_of_ofText (fun d hd => worded_of_readsAlike (h d hd)) ht,
    evaluateWith_settled_hoisted h]
  rfl

theorem evaluateText_text_bound : ∃ (store : Store) (e t : Expression),
    store = [("v.x", .number 5.0)] ∧
      e = .binary .add (.binary .coalesce (.raw "v.x") (.int 1)) (.unary .negate (.raw "3")) ∧
      (∀ d ∈ e.parts, d.ReadsAlike store) ∧ e.text = "(v.x??1)+-3" ∧ ofText e.text = .ok t ∧
      evaluateText [] store e.text = e.evaluate [] store := by
  let store : Store := [("v.x", .number 5.0)]
  let e : Expression :=
    .binary .add (.binary .coalesce (.raw "v.x") (.int 1)) (.unary .negate (.raw "3"))
  have hname : ∀ d ∈ (name "v.x").parts, d.Legible ∧ d.signsApart = true :=
    List.forall_mem_singleton.mpr ⟨show Lexer.isName "v.x" = true by decide, rfl⟩
  have hint : ∀ d ∈ (int 3).parts, d.Legible ∧ d.signsApart = true :=
    List.forall_mem_singleton.mpr ⟨⟨by decide, by decide⟩, rfl⟩
  have hcode : (raw "v.x").Legible ∧ (raw "3").Legible :=
    ⟨legible_raw_text (e := name "v.x") hname (by decide),
      legible_raw_text (e := int 3) hint (by decide)⟩
  have hvariable : ∀ x, ofText "v.x" = .ok (name x) → store.get? x ≠ none := by
    intro x hx
    have hread : ofText "v.x" = .ok (name "v.x") :=
      ofText_text_settled (e := name "v.x") hname
    rw [hread] at hx
    cases hx
    exact Option.some_ne_none _
  have hsign : ofText "3" ≠ .ok (int 0) := by
    have hread : ofText "3" = .ok (int 3) := ofText_text_settled (e := int 3) hint
    simp [hread]
  have hsigns : e.parts.all signsApart = true := by decide
  have hlegible : ∀ d ∈ e.parts, d.Legible := by
    simp only [e, parts, List.cons_append, List.nil_append, List.forall_mem_cons]
    exact ⟨trivial, trivial, hcode.1, ⟨by decide, by decide⟩, trivial, hcode.2, nofun⟩
  have halike : ∀ d ∈ e.parts, d.ReadsAlike store := by
    simp only [e, parts, List.cons_append, List.nil_append, List.forall_mem_cons]
    exact ⟨trivial, hvariable, hcode.1, trivial, hsign, hcode.2, nofun⟩
  have hread : ofText e.text = .ok e.settled :=
    ofText_text_settled fun d hd => ⟨hlegible d hd, List.all_eq_true.mp hsigns d hd⟩
  exact ⟨store, e, _, rfl, rfl, halike, by decide, hread, evaluateText_text halike hread⟩

/-- A zero has no sign in a text, and so what is divided by it has another value there. -/
theorem evaluateText_text_negated_zero : ∃ e t : Expression,
    e = .binary .divide (.int 1) (.unary .negate (.int 0)) ∧ (∀ d ∈ e.parts, d.Legible) ∧
      e.text = "1/-0" ∧ ofText e.text = .ok t ∧
      evaluateText [] [] e.text = .ok (.number (1.0 / 0.0)) ∧
      e.evaluate [] [] = .ok (.number (-(1.0 / 0.0))) ∧
      (1.0 / 0.0 == -(1.0 / 0.0 : Float)) = false := by
  let e : Expression := .binary .divide (.int 1) (.unary .negate (.int 0))
  have hsigns : e.parts.all signsApart = true := by decide
  have hlegible : ∀ d ∈ e.parts, d.Legible := by
    have hone : (int 1).Legible := ⟨by decide, by decide⟩
    have hzero : (int 0).Legible := ⟨by decide, by decide⟩
    simp only [e, parts, List.cons_append, List.nil_append, List.forall_mem_cons]
    exact ⟨trivial, hone, trivial, hzero, nofun⟩
  have hread : ofText e.text = .ok (binary .divide (int 1) (int 0)) :=
    ofText_text_settled fun d hd => ⟨hlegible d hd, List.all_eq_true.mp hsigns d hd⟩
  have htext : e.text = "1/-0" := by decide
  have hvalue : evaluateText [] [] e.text = .ok (.number (1.0 / 0.0)) := by
    rw [← evaluateWith_of_evaluateText hread fun _ => .ok (.number 0.0)]
    decide +kernel
  have hdirect : e.evaluate [] [] = .ok (.number (-(1.0 / 0.0))) := by decide +kernel
  have hne : (1.0 / 0.0 == -(1.0 / 0.0 : Float)) = false := by decide +kernel
  exact ⟨e, _, rfl, hlegible, htext, hread, hvalue, hdirect, hne⟩

end Expression
end Hologram.Script
