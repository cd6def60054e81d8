import Hologram.Config.Control
import Hologram.Proofs.Script.Counting

/-! The code that asks for a held item: what it is read as, wherever it stands, and that it is
decided by the answers to its queries. -/
namespace Hologram.Script

namespace Atomic

/-- A text without blanks at its ends is not trimmed. -/
theorem trim_eq_self {c d : Char} (hc : Text.isBlank c = false) (hd : Text.isBlank d = false)
    (cs : List Char) : Text.trim (c :: (cs ++ [d])) = c :: (cs ++ [d]) := by
  have hfront : (c :: (cs ++ [d])).dropWhile Text.isBlank = c :: (cs ++ [d]) :=
    List.dropWhile_cons_of_neg (by simp [hc])
  have hback : (c :: (cs ++ [d])).reverse.dropWhile Text.isBlank = (c :: (cs ++ [d])).reverse := by
    rw [List.reverse_cons, List.reverse_append]
    exact List.dropWhile_cons_of_neg (by simp [hd])
  rw [Text.trim, hfront, hback, List.reverse_reverse]

/-- What a text in single quotes holds makes no difference to where the text around it closes. -/
theorem closesAtEnd_quotation {depth : Nat} {text : List Char} (h : '\'' ∉ text)
    (rest : List Char) :
    closesAtEnd depth false ('\'' :: (text ++ '\'' :: rest)) = closesAtEnd depth false rest := by
  have hquoted : closesAtEnd depth true (text ++ '\'' :: rest) = closesAtEnd depth false rest := by
    induction text with
    | nil => rfl
    | cons c cs ih =>
      have hcs := ih fun hmem => h (.tail _ hmem)
      by_cases hparens : c = '(' ∨ c = ')'
      · rcases hparens with rfl | rfl
        · exact hcs
        · exact hcs
      · have hc : c ∉ "'()".toList := by
          have hne : c ≠ '\'' := fun heq => h (heq ▸ .head _)
          simp_all
        rw [List.cons_append, closesAtEnd_cons hc, hcs]
  exact hquoted

end Atomic

namespace Expression

variable {e : Expression}

/-- The text of an expression is code that stands for the expression, also where the text is taken
for a looser one. -/
theorem ReadsBack.raw (h : e.ReadsBack) (hneg : e.isNegativeLiteral = false)
    (hsettled : (raw e.text).settled = e.settled)
    (hprecedence : (Expression.raw e.text).precedence ≤ e.precedence) :
    (Expression.raw e.text).ReadsBack := by
  intro j hj _
  rw [hsettled]
  apply h j (Nat.le_trans hj hprecedence)
  intro hnegative
  rw [hneg] at hnegative
  contradiction

/-- The text of an expression is code that can be a condition. -/
theorem ReadsBack.asCondition_raw (h : e.ReadsBack) (hneg : e.isNegativeLiteral = false)
    (hsettled : (Expression.raw e.text).settled = e.settled) (hprecedence : 1 ≤ e.precedence) :
    ReadsAs ((Expression.raw e.text).asCondition e.text) (.binary 1)
      (Expression.raw e.text).settled := by
  rw [hsettled]
  unfold Expression.asCondition
  dsimp only
  split_ifs
  · obtain ⟨ts, hts, he⟩ := h.expression.parenthesized
    exact ⟨ts, hts, .operand (.unary (.postfixed he))⟩
  · apply h 1 hprecedence
    intro hnegative
    rw [hneg] at hnegative
    contradiction

end Expression
end Hologram.Script

namespace Hologram.ItemCriteria
open Script

/-- Criteria whose texts can stand in single quotes. -/
def Quotable (criteria : ItemCriteria) : Prop :=
  ∀ value ∈ criteria.names ++ criteria.tags, '\'' ∉ value.toList

instance (criteria : ItemCriteria) : Decidable criteria.Quotable :=
  inferInstanceAs (Decidable (∀ value ∈ criteria.names ++ criteria.tags, '\'' ∉ value.toList))

def queryCall (function slot : String) (values : List String) : Expression :=
  .call function (.string slot :: values.map fun value => .string (qualified value))

/-- What the code of criteria is read as: one of the queries holds. -/
def expression (criteria : ItemCriteria) (slot : String) : Expression :=
  match criteria.names, criteria.tags with
  | [], [] => .bool false
  | names, [] => queryCall nameQuery slot names
  | [], tags => queryCall tagQuery slot tags
  | names, tags => .binary .or (queryCall nameQuery slot names) (queryCall tagQuery slot tags)

/-- Criteria ask for nothing, for names, for tags, or for both. -/
theorem expression_cases (criteria : ItemCriteria) (slot : String) :
    criteria.expression slot = .bool false ∨
      criteria.expression slot = queryCall nameQuery slot criteria.names ∨
      criteria.expression slot = queryCall tagQuery slot criteria.tags ∨
      criteria.expression slot = .binary .or (queryCall nameQuery slot criteria.names)
        (queryCall tagQuery slot criteria.tags) := by
  obtain ⟨_ | _, _ | _⟩ := criteria
  · exact .inl rfl
  · exact .inr (.inr (.inl rfl))
  · exact .inr (.inl rfl)
  · exact .inr (.inr (.inr rfl))

theorem texts_literals (values : List String) :
    Expression.texts (values.map fun value => .string (qualified value)) =
      values.map fun value => literal (qualified value) := by
  induction values with
  | nil => rfl
  | cons value values ih =>
    rw [List.map_cons, Expression.texts, ih, Expression.text]
    rfl

theorem text_queryCall (function slot : String) (values : List String) :
    (queryCall function slot values).text = function ++ "(" ++
      ",".intercalate (literal slot :: values.map fun value => literal (qualified value)) ++
        ")" := by
  rw [queryCall, Expression.text, Expression.texts, texts_literals, Expression.text]
  simp [parenthesized, literal, String.append_assoc]

theorem text_both (slot : String) (names tags : List String) :
    (Expression.binary .or (queryCall nameQuery slot names) (queryCall tagQuery slot tags)).text =
      (queryCall nameQuery slot names).text ++ "||" ++ (queryCall tagQuery slot tags).text :=
  Expression.text_binary ..

theorem text_expression (criteria : ItemCriteria) (slot : String) :
    (criteria.expression slot).text = criteria.code slot := by
  obtain ⟨names, tags⟩ := criteria
  cases names with
  | nil =>
    cases tags with
    | nil => rfl
    | cons => simp [expression, code, query, text_queryCall]
  | cons =>
    cases tags with
    | nil => simp [expression, code, query, text_queryCall]
    | cons => simp [expression, code, query, text_both, text_queryCall]

theorem not_mem_qualified {value : String} (h : '\'' ∉ value.toList) :
    '\'' ∉ (qualified value).toList := by
  unfold qualified
  split_ifs
  · exact h
  · simp [h]

section

variable {function slot : String} {values : List String}

theorem parts_queryCall (hfunction : Lexer.isName function = true) (hslot : '\'' ∉ slot.toList)
    (h : ∀ value ∈ values, '\'' ∉ value.toList) :
    ∀ d ∈ (queryCall function slot values).parts,
      d.Legible ∧ d.signsApart = true ∧ d.Native := by
  have hstrings (texts : List String) (htexts : ∀ text ∈ texts, '\'' ∉ text.toList) :
      ∀ d ∈ Expression.partsOfAll (texts.map .string),
        d.Legible ∧ d.signsApart = true ∧ d.Native := by
    induction texts with
    | nil => nofun
    | cons text texts ih =>
      obtain ⟨htext, hrest⟩ := List.forall_mem_cons.mp htexts
      exact List.forall_mem_cons.mpr ⟨⟨htext, rfl, trivial⟩, ih hrest⟩
  have hmap : Expression.string slot :: values.map (fun value => .string (qualified value)) =
      (slot :: values.map qualified).map .string := by
    rw [List.map_cons, List.map_map]
    rfl
  refine List.forall_mem_cons.mpr ⟨⟨hfunction, rfl, hfunction⟩, ?_⟩
  rw [hmap]
  refine hstrings _ (List.forall_mem_cons.mpr ⟨hslot, fun text htext => ?_⟩)
  obtain ⟨value, hvalue, rfl⟩ := List.mem_map.mp htext
  exact not_mem_qualified (h value hvalue)

end

variable {criteria : ItemCriteria} {slot : String}

/-- The code of criteria spells their expression as it is. -/
theorem faithful_expression (h : criteria.Quotable) (hslot : '\'' ∉ slot.toList) :
    (criteria.expression slot).Faithful := by
  obtain ⟨hnames, htags⟩ := List.forall_mem_append.mp h
  have hname : (queryCall nameQuery slot criteria.names).Faithful :=
    parts_queryCall (by decide) hslot hnames
  have htag : (queryCall tagQuery slot criteria.tags).Faithful :=
    parts_queryCall (by decide) hslot htags
  rcases expression_cases criteria slot with he | he | he | he <;> rw [he]
  · exact List.forall_mem_singleton.mpr ⟨trivial, rfl, trivial⟩
  · exact hname
  · exact htag
  · refine List.forall_mem_cons.mpr ⟨⟨trivial, rfl, trivial⟩, ?_⟩
    exact List.forall_mem_append.mpr ⟨hname, htag⟩

theorem settled_code (h : criteria.Quotable) (hslot : '\'' ∉ slot.toList) :
    (Expression.raw (criteria.code slot)).settled = criteria.expression slot := by
  rw [← text_expression, Expression.settled, (faithful_expression h hslot).ofText_eq]

/-- Between the quotes of literals nothing closes. -/
theorem closesAtEnd_literals {depth : Nat} {texts : List String}
    (h : ∀ text ∈ texts, '\'' ∉ text.toList) (rest : List Char) :
    Atomic.closesAtEnd depth false ((",".intercalate (texts.map literal)).toList ++ rest) =
      Atomic.closesAtEnd depth false rest := by
  have hliteral (text : String) (htext : '\'' ∉ text.toList) (rest : List Char) :
      Atomic.closesAtEnd depth false ((literal text).toList ++ rest) =
        Atomic.closesAtEnd depth false rest := by
    have hquotes : (literal text).toList ++ rest = '\'' :: (text.toList ++ '\'' :: rest) := by
      simp [literal]
    rw [hquotes, Atomic.closesAtEnd_quotation htext]
  induction texts with
  | nil => rfl
  | cons text texts ih =>
    obtain ⟨htext, htexts⟩ := List.forall_mem_cons.mp h
    cases texts with
    | nil => simpa using hliteral text htext rest
    | cons text' texts =>
      rw [List.map_cons, List.map_cons, String.intercalate_cons_cons, ← List.map_cons,
        String.toList_append, String.toList_append, List.append_assoc, List.append_assoc,
        hliteral text htext]
      exact ih htexts

theorem toList_queryCall (function slot : String) (values : List String) :
    (queryCall function slot values).text.toList = function.toList ++ '(' ::
      ((",".intercalate ((slot :: values.map qualified).map literal)).toList ++ [')']) := by
  rw [text_queryCall, List.map_cons, List.map_map]
  simp [Function.comp_def]

/-- Two queries are no atom: the parenthesis of the first closes before the text does. -/
theorem holds_both (h : criteria.Quotable) (hslot : '\'' ∉ slot.toList) :
    Atomic.holds (Expression.binary .or (queryCall nameQuery slot criteria.names)
      (queryCall tagQuery slot criteria.tags)).text = false := by
  obtain ⟨hnames, -⟩ := List.forall_mem_append.mp h
  have htexts : ∀ text ∈ slot :: criteria.names.map qualified, '\'' ∉ text.toList := by
    refine List.forall_mem_cons.mpr ⟨hslot, fun text htext => ?_⟩
    obtain ⟨value, hvalue, rfl⟩ := List.mem_map.mp htext
    exact not_mem_qualified (hnames value hvalue)
  obtain ⟨inner, hinner⟩ : ∃ inner, (Expression.binary .or
      (queryCall nameQuery slot criteria.names)
      (queryCall tagQuery slot criteria.tags)).text.toList = nameQuery.toList ++ '(' ::
        ((",".intercalate ((slot :: criteria.names.map qualified).map literal)).toList ++
          ')' :: (inner ++ [')'])) := by
    refine ⟨"||".toList ++ tagQuery.toList ++ '(' ::
      (",".intercalate ((slot :: criteria.tags.map qualified).map literal)).toList, ?_⟩
    rw [text_both, String.toList_append, String.toList_append, toList_queryCall,
      toList_queryCall]
    simp
  have hcloses : Atomic.closesAtEnd 1 false _ = _ :=
    closesAtEnd_literals htexts (')' :: (inner ++ [')']))
  generalize (",".intercalate ((slot :: criteria.names.map qualified).map literal)).toList =
    arguments at hinner hcloses
  have htrim : Text.trim (nameQuery.toList ++ '(' :: (arguments ++ ')' :: (inner ++ [')']))) =
      nameQuery.toList ++ '(' :: (arguments ++ ')' :: (inner ++ [')'])) := by
    have hends := Atomic.trim_eq_self (c := 'q') (d := ')') (by decide) (by decide)
      (".is_item_name_any".toList ++ '(' :: (arguments ++ ')' :: inner))
    simpa [nameQuery] using hends
  have hword : ∀ c ∈ nameQuery.toList, Atomic.isWordChar c = true := by
    simp [nameQuery, Atomic.isWordChar]
  unfold Atomic.holds
  dsimp only
  rw [hinner, htrim, List.dropWhile_append_of_pos hword, List.dropWhile_cons_of_neg (by decide)]
  change Atomic.closesAtEnd 1 false _ = false
  rw [hcloses]
  change (inner ++ [')']).isEmpty = false
  simp

theorem isNegativeLiteral_expression (criteria : ItemCriteria) (slot : String) :
    (criteria.expression slot).isNegativeLiteral = false := by
  rcases expression_cases criteria slot with he | he | he | he <;> rw [he] <;> rfl

theorem precedence_expression (h : criteria.Quotable) (hslot : '\'' ∉ slot.toList) :
    1 ≤ (criteria.expression slot).precedence ∧
      (Expression.raw (criteria.expression slot).text).precedence ≤
        (criteria.expression slot).precedence := by
  have hle (code : String) : (Expression.raw code).precedence ≤ Expression.atomPrecedence := by
    rw [Expression.precedence]
    split_ifs
    · exact Nat.le_refl _
    · exact Nat.zero_le _
  rcases expression_cases criteria slot with he | he | he | he <;> rw [he]
  · exact ⟨by decide, hle _⟩
  · exact ⟨Nat.le_add_left 1 _, hle _⟩
  · exact ⟨Nat.le_add_left 1 _, hle _⟩
  · rw [Expression.precedence, Expression.precedence, holds_both h hslot]
    exact ⟨by decide, Nat.zero_le _⟩

/-- The code of criteria is read where it stands. -/
theorem readsBack_code (h : criteria.Quotable) (hslot : '\'' ∉ slot.toList) :
    (Expression.raw (criteria.code slot)).ReadsBack := by
  have hfaithful := faithful_expression h hslot
  have hsettled := settled_code h hslot
  rw [← text_expression] at hsettled ⊢
  apply hfaithful.readsBack.raw
  · exact isNegativeLiteral_expression criteria slot
  · rw [hsettled, Expression.settled_eq_self fun d hd => (hfaithful d hd).2.2]
  · exact (precedence_expression h hslot).2

/-- The code of criteria is read as a condition. -/
theorem readsAs_asCondition (h : criteria.Quotable) (hslot : '\'' ∉ slot.toList) :
    ReadsAs ((Expression.raw (criteria.code slot)).asCondition (criteria.code slot)) (.binary 1)
      (Expression.raw (criteria.code slot)).settled := by
  have hfaithful := faithful_expression h hslot
  have hsettled := settled_code h hslot
  rw [← text_expression] at hsettled ⊢
  apply hfaithful.readsBack.asCondition_raw
  · exact isNegativeLiteral_expression criteria slot
  · rw [hsettled, Expression.settled_eq_self fun d hd => (hfaithful d hd).2.2]
  · exact (precedence_expression h hslot).1

/-- The answer to the query whether a slot holds one of several items. -/
def ask (functions : Functions) (function slot : String) (values : List String) :
    Except EvalError Value :=
  callFunction functions function ((slot :: values.map qualified).map .string)

/-- The answer to whether a slot holds such an item. The query by tag is not asked where the one by
name holds. -/
def answer (criteria : ItemCriteria) (functions : Functions) (slot : String) :
    Except EvalError Value :=
  match criteria.names, criteria.tags with
  | [], [] => .ok (.ofBool false)
  | names, [] => ask functions nameQuery slot names
  | [], tags => ask functions tagQuery slot tags
  | names, tags => do
    if (← ask functions nameQuery slot names).isTruthy then return .ofBool true
    return .ofBool (← ask functions tagQuery slot tags).isTruthy

section

variable {functions : Functions} {store : Store} {rawValue : String → Except EvalError Value}

theorem evaluateWith_queryCall (function slot : String) (values : List String) :
    (queryCall function slot values).evaluateWith functions store rawValue =
      ask functions function slot values := by
  have hstrings (texts : List String) :
      Expression.evaluateAllWith functions store rawValue (texts.map .string) =
        .ok (texts.map .string) := by
    induction texts with
    | nil => rfl
    | cons text texts ih =>
      rw [List.map_cons, Expression.evaluateAllWith, Expression.evaluateWith, ih]
      rfl
  have hmap : Expression.string slot :: values.map (fun value => .string (qualified value)) =
      (slot :: values.map qualified).map .string := by
    rw [List.map_cons, List.map_map]
    rfl
  rw [queryCall, hmap, Expression.evaluateWith, hstrings]
  rfl

/-- What the code asks for is answered in the same way whatever the variables are. -/
theorem evaluateWith_expression (criteria : ItemCriteria) (slot : String) :
    (criteria.expression slot).evaluateWith functions store rawValue =
      criteria.answer functions slot := by
  obtain ⟨names, tags⟩ := criteria
  cases names with
  | nil =>
    cases tags with
    | nil => simp only [expression, answer, Expression.evaluateWith]
    | cons => exact evaluateWith_queryCall ..
  | cons =>
    cases tags with
    | nil => exact evaluateWith_queryCall ..
    | cons => simp only [expression, answer, Expression.evaluateWith, evaluateWith_queryCall]

end

/-- A function whose answers are numbers. -/
def AnswersNumbers (functions : Functions) (function : String) : Prop :=
  ∀ arguments, ∃ x, callFunction functions function arguments = .ok (.number x)

theorem exists_decides_queryCall {functions : Functions} {function : String}
    (h : AnswersNumbers functions function) (slot : String) (values : List String) :
    ∃ b, ∀ store, (queryCall function slot values).Decides functions store b := by
  obtain ⟨x, hx⟩ := h ((slot :: values.map qualified).map .string)
  exact ⟨Value.isTruthy (.number x), fun store rawValue =>
    ⟨.number x, (evaluateWith_queryCall function slot values).trans hx, rfl⟩⟩

/-- Where the queries answer with numbers, the item is held or not, whatever the variables are. -/
theorem exists_decides {functions : Functions} (hname : AnswersNumbers functions nameQuery)
    (htag : AnswersNumbers functions tagQuery) (criteria : ItemCriteria) (slot : String) :
    ∃ b, ∀ store, (criteria.expression slot).Decides functions store b := by
  rcases expression_cases criteria slot with he | he | he | he <;> rw [he]
  · exact ⟨false, fun store rawValue => ⟨_, by rw [Expression.evaluateWith],
      Value.isTruthy_ofBool false⟩⟩
  · exact exists_decides_queryCall hname slot criteria.names
  · exact exists_decides_queryCall htag slot criteria.tags
  · obtain ⟨p, hp⟩ := exists_decides_queryCall hname slot criteria.names
    obtain ⟨q, hq⟩ := exists_decides_queryCall htag slot criteria.tags
    exact ⟨p || q, fun store => (hp store).or (hq store)⟩

end Hologram.ItemCriteria
