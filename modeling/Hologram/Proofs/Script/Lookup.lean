import Hologram.Proofs.Number.Digits
import Hologram.Proofs.Script.Comments
import Hologram.Proofs.Script.Decision
import Hologram.Proofs.Script.Table

/-! The code of a look-up table is read, and it has the value of the entry that its comparisons lead
to. -/
namespace Hologram.Script
open Lexer

/-- A text that spells an expression wherever it stands. Comments may be inside, and the expression
leaves no conditional open. -/
structure Writes (text : String) (e : Expression) : Prop where
  begins : ∃ c cs, text.toList = c :: cs ∧ c ≠ '?'
  spells : ∃ ts, (∀ rest, Separate rest → Reads true (text.toList ++ rest) ts rest) ∧
    Derives (.expression false) ts e

namespace Writes

variable {text text' condition : String} {c e s u : Expression}

theorem ofText (h : Writes text e) : Expression.ofText text = .ok e := by
  obtain ⟨-, ts, hts, he⟩ := h
  have hreads := hts [] separate_nil
  rw [List.append_nil] at hreads
  exact Expression.ofText_eq_ok_iff.mpr ⟨false, ts, hreads, he⟩

/-- A text that is read without comments begins with no question mark. -/
theorem begins_of_readsAs {level : Level} (h : ReadsAs text level e) :
    ∃ c cs, text.toList = c :: cs ∧ c ≠ '?' := by
  obtain ⟨ts, hts, he⟩ := h
  have hreads := hts [] separate_nil
  rw [List.append_nil] at hreads
  cases hcs : text.toList with
  | nil =>
    obtain ⟨t, rest, rfl, -⟩ := he.exists_cons
    rw [hcs] at hreads
    cases hreads
  | cons c cs =>
    refine ⟨c, cs, rfl, ?_⟩
    rintro rfl
    have hminus := he.endsSigns hreads '?' '?' (by rw [hcs]; rfl) rfl
    exact absurd hminus.1 (by decide)

theorem of_readsAs (h : ReadsAs text .unary e) : Writes text e := by
  refine ⟨begins_of_readsAs h, ?_⟩
  obtain ⟨ts, hts, he⟩ := h
  exact ⟨ts, fun rest hrest => (hts rest hrest).allow, .condition (.operand he)⟩

theorem parenthesized (h : Writes text e) : Writes (parenthesized text) e := by
  obtain ⟨-, ts, hts, he⟩ := h
  refine ⟨⟨'(', text.toList ++ [')'], by simp [Script.parenthesized], by decide⟩, _,
    fun rest hrest => ?_, .of_primary (.group he)⟩
  simp only [Script.parenthesized, String.toList_append, List.append_assoc]
  have hclose : Separate (')' :: rest) := .cons (by decide) rest
  exact reads_punctuation rfl ((hts _ hclose).append (reads_punctuation rfl .done))

theorem conditional (hc : ReadsAs condition (.binary 1) c) (hs : Writes text s)
    (hu : Writes text' u) :
    Writes (condition ++ "?" ++ text ++ ":" ++ text') (.conditional c s u) := by
  obtain ⟨d, ds, hcondition, hd⟩ := begins_of_readsAs hc
  obtain ⟨ts, hts, hc⟩ := hc
  obtain ⟨⟨a, as, htext, ha⟩, us, hus, hs⟩ := hs
  obtain ⟨-, vs, hvs, hu⟩ := hu
  refine ⟨⟨d, ds ++ "?".toList ++ text.toList ++ ":".toList ++ text'.toList, ?_, hd⟩, _,
    fun rest hrest => ?_, .conditional hc hs hu⟩
  · simp [hcondition]
  · simp only [String.toList_append, List.append_assoc]
    have hsatisfied := hus (':' :: (text'.toList ++ rest)) (.cons (by decide) _)
    refine (hts _ (.cons (by decide) _)).allow.append (reads_sign (c := '?') rfl (fun b hb => ?_)
      (hsatisfied.append (reads_punctuation rfl (hvs rest hrest))))
    rw [htext] at hb
    cases hb
    cases hj : joins '?' a with
    | false => rfl
    | true =>
      rcases mem_of_joins hj with ⟨hq, -⟩ | -
      · contradiction
      · unfold joins at hj
        split at hj <;> simp_all

end Writes

/-- A text that may be the value of an entry: an integer literal, or a group in parentheses. -/
inductive ValueText : String → Prop
  | literal (negative : Bool) {digits : List Char} (hne : digits ≠ [])
      (hdigits : ∀ d ∈ digits, d.isDigit = true)
      (hbound : (Number.ofDigits digits : Int) ≤ Number.Width.bits64.greatest) :
      ValueText (String.ofList (if negative then '-' :: digits else digits))
  | group {text : String} {e f : Expression} (hinner : Expression.ofText text = .ok e)
      (houter : Expression.ofText (parenthesized text) = .ok f) : ValueText (parenthesized text)

/-- A group whose inside is read as well is closed by its own parenthesis. -/
theorem writes_parenthesized {text : String} {e f : Expression}
    (hinner : Expression.ofText text = .ok e)
    (houter : Expression.ofText (parenthesized text) = .ok f) : Writes (parenthesized text) e := by
  obtain ⟨opens, ts, hts, he⟩ := Expression.ofText_eq_ok_iff.mp hinner
  obtain ⟨opens', us, hus, hf⟩ := Expression.ofText_eq_ok_iff.mp houter
  have htext : (parenthesized text).toList = '(' :: (text.toList ++ [')']) := by
    simp [parenthesized]
  rcases hts.extend_or_swallow (d := ')') (by decide) (by decide) with hmore | hswallow
  · refine ⟨⟨'(', _, htext, by decide⟩, _, fun rest hrest => ?_, .of_primary (.group he)⟩
    rw [htext, List.cons_append, List.append_assoc]
    exact reads_punctuation rfl ((hmore rest).append (reads_punctuation rfl .done))
  · -- A comment that takes the parenthesis in leaves the first one open.
    rw [htext] at hus
    have hdepth := hf.depth_eq_zero rfl
    rw [← (reads_punctuation (t := .leftParen) rfl hswallow).unique hus, Token.depth_cons,
      he.depth_eq_zero rfl] at hdepth
    contradiction

theorem ValueText.writes {text : String} (h : ValueText text) : ∃ e, Writes text e := by
  cases h with
  | @literal negative digits hne hdigits hbound =>
    have hunsigned : ReadsAs (String.ofList digits) .unary (.int (Number.ofDigits digits)) :=
      ⟨_, by rw [String.toList_ofList]; exact spells_digits hne hdigits hbound,
        .unary (.postfixed (.int _))⟩
    cases negative with
    | false => exact ⟨_, .of_readsAs hunsigned⟩
    | true =>
      have hminus : (String.ofList digits).toList.head? ≠ some '-' := by
        rw [String.toList_ofList]
        intro hhead
        exact absurd (hdigits '-' (List.mem_of_mem_head? hhead)) (by decide)
      have htext : UnaryOperator.negate.symbol ++ String.ofList digits =
          String.ofList ('-' :: digits) := by
        rw [← String.toList_inj]
        simp [UnaryOperator.symbol]
      have hsigned := hunsigned.negate hminus
      rw [htext] at hsigned
      exact ⟨_, .of_readsAs hsigned⟩
  | group hinner houter => exact ⟨_, writes_parenthesized hinner houter⟩

/-- Integers above the least one of 64 bits are written as integer literals. -/
theorem valueText_toString {n : Int} (hleast : Number.Width.bits64.least < n)
    (hgreatest : n ≤ Number.Width.bits64.greatest) : ValueText (toString n) := by
  have hdigits (m : Nat) : ∀ d ∈ Nat.toDigits 10 m, d.isDigit = true :=
    fun d hd => Nat.isDigit_of_mem_toDigits (by decide) (by decide) hd
  have hvalue (m : Nat) : Number.ofDigits (Nat.toDigits 10 m) = m := Nat.ofDigitChars_ten_toDigits
  have hliteral (negative : Bool) (m : Nat) (hm : (m : Int) ≤ Number.Width.bits64.greatest) :=
    ValueText.literal negative Nat.toDigits_ne_nil (hdigits m) (by rwa [hvalue])
  cases n with
  | ofNat m =>
    have htext : toString (Int.ofNat m) = String.ofList (Nat.toDigits 10 m) := by
      rw [← Nat.toString_eq_ofList_toDigits]
      rfl
    rw [htext]
    exact hliteral false m hgreatest
  | negSucc m =>
    have htext : toString (Int.negSucc m) = String.ofList ('-' :: Nat.toDigits 10 (m + 1)) := by
      rw [← String.toList_inj, Number.toList_toString_int]
      simp
    have hle : ((m + 1 : Nat) : Int) ≤ Number.Width.bits64.greatest := by
      rw [Number.Width.least_eq, Int.negSucc_eq] at hleast
      omega
    rw [htext]
    exact hliteral true (m + 1) hle

/-- Code that is read, and whose value is the value of another text. -/
structure Answers (functions : Functions) (store : Store) (code answer : String) : Prop where
  written : ∃ e, Writes code e
  value : Expression.evaluateText functions store code =
    Expression.evaluateText functions store answer

namespace Answers

variable {functions : Functions} {store : Store} {text text' answer answer' : String}

theorem self (h : ValueText text) : Answers functions store text text :=
  ⟨h.writes, rfl⟩

theorem zero : Answers functions store "0" "0" := by
  have hzero : ValueText (toString (0 : Int)) := valueText_toString (by decide) (by decide)
  exact self hzero

theorem evaluateText_of_writes {e : Expression} (h : Writes text e) :
    Expression.evaluateText functions store text = e.evaluateWith functions store
      fun _ => .error (.unsupported "raw code in raw code") := by
  unfold Expression.evaluateText
  rw [h.ofText]

theorem parenthesized (h : Answers functions store text answer) :
    Answers functions store (parenthesized text) answer := by
  obtain ⟨⟨e, he⟩, hvalue⟩ := h
  refine ⟨⟨e, he.parenthesized⟩, ?_⟩
  rw [← hvalue, evaluateText_of_writes he, evaluateText_of_writes he.parenthesized]

/-- A comparison of the variable with an integer, written as the condition of a conditional. -/
theorem readsAs_compare {op : BinaryOperator} (hop : op = .equal ∨ op = .less) {x : String}
    (hx : isName x = true) {k : Int} (hk : k.natAbs ≤ 2 ^ 53) :
    ReadsAs (x ++ op.symbol ++ toString k) (.binary 1) (.binary op (.name x) (.int k)) := by
  have hlegible : ∀ d ∈ (Expression.binary op (.name x) (.int k)).parts,
      d.Legible ∧ d.signsApart = true := by
    have hbounds := Number.Width.between_of_natAbs_le hk
    rcases hop with rfl | rfl <;>
      simp [Expression.parts, Expression.Legible, Expression.signsApart, hx, hbounds]
  have hback := Expression.readsBack hlegible 1 (BinaryOperator.one_le_precedence op)
    fun _ => by decide
  have htext : (Expression.binary op (.name x) (.int k)).text = x ++ op.symbol ++ toString k := by
    rcases hop with rfl | rfl <;> rfl
  rwa [htext] at hback

/-- A conditional answers as the branch that its comparison leads to. -/
theorem conditional {op : BinaryOperator} (hop : op = .equal ∨ op = .less) {x : String}
    (hx : isName x = true) {k : Int} (hk : k.natAbs ≤ 2 ^ 53) {p : Bool}
    (hp : Expression.Decides functions store (.binary op (.name x) (.int k)) p)
    (hs : Answers functions store text answer) (hu : Answers functions store text' answer') :
    Answers functions store (x ++ op.symbol ++ toString k ++ "?" ++ text ++ ":" ++ text')
      (if p then answer else answer') := by
  obtain ⟨⟨s, hs⟩, hvalue⟩ := hs
  obtain ⟨⟨u, hu⟩, hvalue'⟩ := hu
  have hwrites := Writes.conditional (readsAs_compare hop hx hk) hs hu
  refine ⟨⟨_, hwrites⟩, ?_⟩
  obtain ⟨value, hcondition, rfl⟩ := hp fun _ => .error (.unsupported "raw code in raw code")
  rw [evaluateText_of_writes hwrites, Expression.evaluateWith, hcondition]
  cases htruthy : value.isTruthy with
  | false => simpa [bind, Except.bind, htruthy, evaluateText_of_writes hu] using hvalue'
  | true => simpa [bind, Except.bind, htruthy, evaluateText_of_writes hs] using hvalue

end Answers

namespace Lookup

/-- Entries with keys that are doubles and with values that can stand in code. -/
def Encodable (entries : Lookup) : Prop :=
  ∀ entry ∈ entries, entry.1.natAbs ≤ 2 ^ 53 ∧ ValueText entry.2

/-- The value text that a chain of comparisons leads to: of the entry under the index, else of the
last one. -/
def reached (index : Int) (entries : Lookup) : String :=
  match entries.find? index with
  | some entry => entry.2
  | none => (entries.getLast?.map (·.2)).getD "0"

theorem reached_cons {index key : Int} {value : String} {rest : Lookup} (hrest : rest ≠ []) :
    reached index ((key, value) :: rest) =
      if decide (index = key) = true then value else reached index rest := by
  obtain ⟨next, others, rfl⟩ := List.exists_cons_of_ne_nil hrest
  by_cases hkey : key = index
  · simp [reached, find?, hkey]
  · simp [reached, find?, hkey, Ne.symm hkey]

section

variable {functions : Functions} {store : Store} {x : String} {index : Int}

theorem answers_chain (hx : isName x = true) (hindex : index.natAbs ≤ 2 ^ 53)
    (hstore : store.HasInt x index) {entries : Lookup} (h : entries.Encodable) :
    Answers functions store (chain x entries) (reached index entries) := by
  have hentry {key : Int} {value : String} {rest : Lookup} {code : String}
      (hkey : key.natAbs ≤ 2 ^ 53) (hvalue : ValueText value) (hrest : rest ≠ [])
      (hcode : Answers functions store code (reached index rest)) :
      Answers functions store (x ++ "==" ++ toString key ++ "?" ++ value ++ ":" ++ code)
        (reached index ((key, value) :: rest)) := by
    rw [reached_cons hrest]
    exact Answers.conditional (.inl rfl) hx hkey
      (Expression.decides_compare rfl hstore hindex hkey rfl) (.self hvalue) hcode
  induction entries with
  | nil => exact .zero
  | cons entry rest ih =>
    obtain ⟨key, value⟩ := entry
    obtain ⟨⟨hkey, hvalue⟩, hrest⟩ := List.forall_mem_cons.mp h
    -- The last entry stands without a comparison, and the one before it without parentheses.
    match rest, hrest, ih with
    | [], _, _ =>
      have hreached : reached index [(key, value)] = value := by
        by_cases hk : key = index <;> simp [reached, find?, hk]
      rw [hreached]
      exact .self hvalue
    | [(key', last)], hrest, ih => exact hentry hkey hvalue (List.cons_ne_nil _ _) (ih hrest)
    | next :: after :: others, hrest, ih =>
      exact hentry hkey hvalue (List.cons_ne_nil _ _) (ih hrest).parenthesized

theorem answers_code (hx : isName x = true) (hindex : index.natAbs ≤ 2 ^ 53)
    (hstore : store.HasInt x index) (threshold : Nat) {entries : Lookup} (h : entries.Encodable) :
    Answers functions store (code threshold x entries)
      (reached index (leaf threshold index entries)) := by
  have hkey {rest : Lookup} (hrest : ∀ entry ∈ rest, entry ∈ entries) :
      ((rest.head?.map Prod.fst).getD 0).natAbs ≤ 2 ^ 53 := by
    cases rest with
    | nil => exact Nat.zero_le _
    | cons first _ => exact (h first (hrest first List.mem_cons_self)).1
  unfold code
  fun_induction halved (threshold - 1) x entries with
  | case1 entries hlength =>
    rw [leaf, if_pos (by omega)]
    exact answers_chain hx hindex hstore h
  | case2 entries hlength middle boundary ihlower ihupper =>
    have hlower := ihlower (fun entry hentry => h entry (List.mem_of_mem_take hentry))
      fun hrest => hkey fun entry hentry => List.mem_of_mem_take (hrest entry hentry)
    have hupper := ihupper (fun entry hentry => h entry (List.mem_of_mem_drop hentry))
      fun hrest => hkey fun entry hentry => List.mem_of_mem_drop (hrest entry hentry)
    have hboundary : boundary.natAbs ≤ 2 ^ 53 := hkey fun _ => List.mem_of_mem_drop
    have hleaf : reached index (leaf threshold index entries) =
        if decide (index < boundary) = true then
          reached index (leaf threshold index (entries.take middle))
        else reached index (leaf threshold index (entries.drop middle)) := by
      rw [leaf, if_neg (by omega)]
      simp only [decide_eq_true_eq]
      split_ifs <;> rfl
    rw [hleaf]
    exact Answers.conditional (.inr rfl) hx hboundary
      (Expression.decides_compare rfl hstore hindex hboundary rfl) hlower.parenthesized
      hupper.parenthesized

end

theorem writes_zero : Writes "0" (.int 0) :=
  .of_readsAs ⟨_, spells_natural (n := 0) (by decide), .unary (.postfixed (.int 0))⟩

theorem evaluateText_zero (functions : Functions) (store : Store) :
    Expression.evaluateText functions store "0" = .ok (.number 0.0) := by
  have hfloat : Float.ofInt 0 = 0.0 := by decide +kernel
  rw [Expression.evaluateText, writes_zero.ofText]
  simp only [Expression.evaluateWith, hfloat]

/-- In ascending order, a chain leads to the entry that is selected. -/
theorem reached_leaf (threshold : Nat) (index : Int) (entries : Lookup) :
    reached index (leaf threshold index entries.ascending) =
      (entries.selected? threshold index).getD "0" := by
  have hfind := (find?_leaf (ascends_ascending entries) threshold index).trans
    (find?_ascending entries index)
  rw [reached, selected?_eq, hfind]
  cases entries.find? index <;> rfl

/-- The code of a table is accepted, and its value is the one of the entry that is selected for the
integer that the variable has, or zero, but only when there are no entries. A list of values is the
table of its positions. -/
theorem evaluateText_ofEntries (functions : Functions) {store : Store} {x : String}
    (hx : isName x = true) (threshold : Nat) {entries : Lookup} (h : entries.Encodable)
    {index : Int} (hindex : index.natAbs ≤ 2 ^ 53) (hstore : store.HasInt x index) :
    (∃ e, Expression.ofText (ofEntries threshold x entries) = .ok e) ∧
      Expression.evaluateText functions store (ofEntries threshold x entries) =
        (match entries.selected? threshold index with
          | some value => Expression.evaluateText functions store value
          | none => .ok (.number 0.0)) ∧
      (entries.selected? threshold index = none ↔ entries = []) ∧
      ∀ values : List String,
        entries = values.zipIdx.map (fun (value, key) => ((key : Int), value)) →
          ofList threshold x values = ofEntries threshold x entries := by
  have hascending : entries.ascending.Encodable := fun entry hentry =>
    h entry (mem_of_mem_ascending hentry)
  have hcode : Answers functions store (ofEntries threshold x entries) _ :=
    answers_code hx hindex hstore threshold hascending
  rw [reached_leaf] at hcode
  obtain ⟨⟨e, he⟩, hvalue⟩ := hcode
  refine ⟨⟨e, he.ofText⟩, ?_, selected?_eq_none_iff, ?_⟩
  · rw [hvalue]
    cases entries.selected? threshold index with
    | some value => rfl
    | none => exact evaluateText_zero functions store
  · rintro values rfl
    rw [ofEntries, (ascends_numbered values 0).ascending_eq_self, ofList]

/-- Entries in no order, one of them hidden, with an index that is no key. -/
theorem evaluateText_ofEntries_sparse :
    let store : Store := [("v.i", .number 3.0)]
    let entries : Lookup := [(5, "7"), (-2, "(1+2)"), (5, "8"), (0, "-3")]
    isName "v.i" = true ∧ entries.Encodable ∧ (3 : Int).natAbs ≤ 2 ^ 53 ∧
      store.HasInt "v.i" 3 ∧
      (∃ e, Expression.ofText (ofEntries 2 "v.i" entries) = .ok e) ∧
      Expression.evaluateText [] store (ofEntries 2 "v.i" entries) =
        Expression.evaluateText [] store "7" := by
  intro store entries
  have hname : isName "v.i" = true := by decide
  have hread (text : String) (h : (Expression.ofText text).toOption.isSome = true) :
      ∃ e, Expression.ofText text = .ok e := by
    cases hresult : Expression.ofText text with
    | ok e => exact ⟨e, rfl⟩
    | error =>
      rw [hresult] at h
      contradiction
  have hgroup : ValueText "(1+2)" := by
    obtain ⟨e, hinner⟩ := hread "1+2" (by decide +kernel)
    obtain ⟨f, houter⟩ := hread "(1+2)" (by decide +kernel)
    exact .group hinner houter
  have hliteral : ValueText (toString (7 : Int)) ∧ ValueText (toString (8 : Int)) ∧
      ValueText (toString (-3 : Int)) :=
    ⟨valueText_toString (by decide) (by decide), valueText_toString (by decide) (by decide),
      valueText_toString (by decide) (by decide)⟩
  have hentries : entries.Encodable := by
    simp only [entries, Encodable, List.forall_mem_cons]
    exact ⟨⟨by decide, hliteral.1⟩, ⟨by decide, hgroup⟩, ⟨by decide, hliteral.2.1⟩,
      ⟨by decide, hliteral.2.2⟩, by simp⟩
  have hstore : store.HasInt "v.i" 3 := ⟨3.0, by decide +kernel, by decide +kernel⟩
  have hindex : (3 : Int).natAbs ≤ 2 ^ 53 := by decide
  obtain ⟨hcode, hvalue, -⟩ := evaluateText_ofEntries [] hname 2 hentries hindex hstore
  have hselected : entries.selected? 2 3 = some "7" := by
    rw [selected?_eq]
    cbv
  rw [hselected] at hvalue
  exact ⟨hname, hentries, hindex, hstore, hcode, hvalue⟩

end Lookup
end Hologram.Script
