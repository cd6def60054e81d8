import Hologram.Proofs.Script.Counting
import Hologram.Proofs.Script.Lookup

/-! Tables of numbers. Their code can be spliced into other code, and it is worth the number under
the index, or one of the numbers when the index is outside. -/
namespace Hologram.Script
open Lexer

/-- A text in which no comment and no text in double quotes can begin. -/
def Bare (text : String) : Prop :=
  ∀ c ∈ text.toList, c ≠ '/' ∧ c ≠ '"'

theorem Bare.append {text text' : String} (h : Bare text) (h' : Bare text') :
    Bare (text ++ text') := by
  rw [Bare, String.toList_append, List.forall_mem_append]
  exact ⟨h, h'⟩

theorem bare_parenthesized {text : String} (h : Bare text) : Bare (parenthesized text) := by
  apply Bare.append (Bare.append _ h)
  · simp [Bare]
  · simp [Bare]

/-- Characters of a kind that a slash and a quote are not of. -/
theorem bare_of_forall {p : Char → Bool} (hslash : p '/' = false) (hquote : p '"' = false)
    {text : String} (h : ∀ c ∈ text.toList, p c = true) : Bare text :=
  fun c hc => ⟨ne_of_apply_ne p (by simp [h c hc, hslash]),
    ne_of_apply_ne p (by simp [h c hc, hquote])⟩

theorem bare_of_isName {x : String} (h : isName x = true) : Bare x :=
  bare_of_forall (by decide) (by decide) fun _ => isNamePart_of_mem h

theorem bare_toString_int (n : Int) : Bare (toString n) :=
  bare_of_forall (by decide) (by decide) fun _ => Number.isDigit_or_minus_of_mem

/-- Bare code that spells an expression is legible code for it. -/
theorem Writes.legible {code : String} {e : Expression} (h : Writes code e) (hbare : Bare code) :
    (Expression.raw code).Legible ∧ (Expression.raw code).settled = e := by
  refine ⟨⟨⟨e, h.ofText⟩, fun hmem => (hbare _ hmem).2 rfl, ?_⟩, ?_⟩
  · obtain ⟨-, ts, hts, -⟩ := h
    have hreads := hts [] separate_nil
    rw [List.append_nil] at hreads
    exact ⟨ts, hreads.without_comments fun hmem => (hbare _ hmem).1 rfl⟩
  · rw [Expression.settled, h.ofText]

namespace Lookup

/-- Entries whose texts can be spliced. -/
def Plain (entries : Lookup) : Prop :=
  ∀ entry ∈ entries, Bare entry.2

section

variable {x : String} {entries : Lookup}

theorem bare_chain (hx : Bare x) (h : Plain entries) : Bare (chain x entries) := by
  have hequal : Bare "==" := by simp [Bare]
  have hquestion : Bare "?" := by simp [Bare]
  have hcolon : Bare ":" := by simp [Bare]
  have hentry {key : Int} {value code : String} (hvalue : Bare value) (hcode : Bare code) :
      Bare (x ++ "==" ++ toString key ++ "?" ++ value ++ ":" ++ code) :=
    (((((hx.append hequal).append (bare_toString_int key)).append hquestion).append
      hvalue).append hcolon).append hcode
  induction entries with
  | nil => simp [chain, Bare]
  | cons entry rest ih =>
    obtain ⟨key, value⟩ := entry
    obtain ⟨hvalue, hrest⟩ := List.forall_mem_cons.mp h
    match rest, hrest, ih with
    | [], _, _ => exact hvalue
    | [(key', last)], hrest, ih => exact hentry hvalue (ih hrest)
    | next :: after :: others, hrest, ih => exact hentry hvalue (bare_parenthesized (ih hrest))

theorem bare_halved (hx : Bare x) (threshold : Nat) (h : Plain entries) :
    Bare (halved threshold x entries) := by
  fun_induction halved threshold x entries with
  | case1 entries => exact bare_chain hx h
  | case2 entries hlength middle boundary ihlower ihupper =>
    have hlower := ihlower fun entry hentry => h entry (List.mem_of_mem_take hentry)
    have hupper := ihupper fun entry hentry => h entry (List.mem_of_mem_drop hentry)
    have hless : Bare "<" := by simp [Bare]
    have hquestion : Bare "?" := by simp [Bare]
    have hcolon : Bare ":" := by simp [Bare]
    exact (((((hx.append hless).append (bare_toString_int boundary)).append hquestion).append
      (bare_parenthesized hlower)).append hcolon).append (bare_parenthesized hupper)

theorem bare_ofList (hx : Bare x) (threshold : Nat) {values : List String}
    (h : ∀ value ∈ values, Bare value) : Bare (ofList threshold x values) := by
  apply bare_halved hx
  intro entry hentry
  obtain ⟨⟨value, key⟩, hmem, rfl⟩ := List.mem_map.mp hentry
  exact h value (List.fst_mem_of_mem_zipIdx hmem)

theorem bare_ofRows {y : String} (hx : Bare x) (hy : Bare y) (threshold : Nat)
    {rows : List (List String)} (h : ∀ row ∈ rows, ∀ value ∈ row, Bare value) :
    Bare (ofRows threshold x y rows) := by
  apply bare_ofList hx
  intro value hvalue
  obtain ⟨row, hrow, rfl⟩ := List.mem_map.mp hvalue
  exact bare_parenthesized (bare_ofList hy threshold (h row hrow))

end

theorem find?_numbered (values : List String) (first i : Nat) :
    find? ((values.zipIdx first).map fun (value, key) => ((key : Int), value)) ((first + i : Nat)) =
      values[i]?.map fun value => (((first + i : Nat) : Int), value) := by
  induction values generalizing first i with
  | nil => rfl
  | cons value values ih =>
    rw [List.zipIdx_cons, List.map_cons]
    cases i with
    | zero => simp [find?]
    | succ i =>
      have hne : ¬ ((first : Int) = ((first + (i + 1) : Nat) : Int)) := by omega
      have hrest := ih (first + 1) i
      rw [show first + 1 + i = first + (i + 1) by omega] at hrest
      rw [List.getElem?_cons_succ, ← hrest, find?, List.find?_cons_of_neg (by simpa using hne)]
      rfl

theorem reached_mem (index : Int) (entries : Lookup) :
    reached index entries ∈ entries.map Prod.snd ∨ entries = [] ∧ reached index entries = "0" := by
  unfold reached
  split
  · rename_i entry hentry
    exact .inl (List.mem_map_of_mem (List.mem_of_find?_eq_some hentry))
  · cases hlast : entries.getLast? with
    | none => exact .inr ⟨List.getLast?_eq_none_iff.mp hlast, rfl⟩
    | some entry =>
      have hmem : entry.2 ∈ entries.map Prod.snd :=
        List.mem_map_of_mem (List.mem_of_getLast? hlast)
      exact .inl hmem

/-- The code of a list answers with one of the values, with the value in its place if there is
one, and with zero only when there are none. -/
theorem answers_ofList {x : String} (hx : isName x = true) {index : Int}
    (hindex : index.natAbs ≤ 2 ^ 53) (threshold : Nat) {values : List String}
    (hvalues : ∀ value ∈ values, ValueText value) (hlength : values.length ≤ 2 ^ 53) :
    ∃ answer, (∀ functions store, store.HasInt x index →
        Answers functions store (ofList threshold x values) answer) ∧
      (answer ∈ values ∨ values = [] ∧ answer = "0") ∧
      ∀ i : Nat, index = i → ∀ value, values[i]? = some value → answer = value := by
  let entries : Lookup := values.zipIdx.map fun (value, key) => ((key : Int), value)
  have hentries : entries.Encodable := by
    intro entry hentry
    obtain ⟨⟨value, key⟩, hmem, rfl⟩ := List.mem_map.mp hentry
    have hkey := List.snd_lt_of_mem_zipIdx hmem
    exact ⟨by dsimp only; omega, hvalues value (List.fst_mem_of_mem_zipIdx hmem)⟩
  refine ⟨_, fun functions store hstore => answers_code hx hindex hstore threshold hentries, ?_, ?_⟩
  · rcases reached_mem index (leaf threshold index entries) with hmem | ⟨hnil, hzero⟩
    · obtain ⟨entry, hentry, heq⟩ := List.mem_map.mp hmem
      obtain ⟨⟨value, key⟩, hmem, rfl⟩ :=
        List.mem_map.mp ((leaf_sublist threshold index entries).subset hentry)
      exact .inl (heq ▸ List.fst_mem_of_mem_zipIdx hmem)
    · have hentries : entries = [] := by
        by_contra hne
        exact leaf_ne_nil hne hnil
      exact .inr ⟨List.zipIdx_eq_nil_iff.mp (List.map_eq_nil_iff.mp hentries), hzero⟩
  · rintro i rfl value hvalue
    have hfind : find? (leaf threshold i entries) i = some ((i : Int), value) := by
      have hnumbered := find?_numbered values 0 i
      rw [Nat.zero_add, hvalue] at hnumbered
      rw [find?_leaf (ascends_numbered values 0), hnumbered]
      rfl
    rw [reached, hfind]

/-- The code of a list spells an expression. -/
theorem writes_ofList {x : String} (hx : isName x = true) (threshold : Nat) {values : List String}
    (hvalues : ∀ value ∈ values, ValueText value) (hlength : values.length ≤ 2 ^ 53) :
    ∃ e, Writes (ofList threshold x values) e := by
  have hstore : Store.HasInt [(x, .number (Float.ofInt 0))] x 0 := by
    refine ⟨Float.ofInt 0, ?_, by decide +kernel⟩
    simp [Expression.variableValue, Dictionary.get?_cons]
  have hzero : (0 : Int).natAbs ≤ 2 ^ 53 := by decide
  obtain ⟨answer, hanswers, -⟩ := answers_ofList hx hzero threshold hvalues hlength
  exact (hanswers [] _ hstore).written

/-- Rows of values can be the values of another list. -/
theorem valueText_rows {y : String} (hy : isName y = true) (threshold : Nat)
    {rows : List (List String)}
    (h : ∀ row ∈ rows, (∀ value ∈ row, ValueText value) ∧ row.length ≤ 2 ^ 53) :
    ∀ value ∈ rows.map fun row => parenthesized (ofList threshold y row), ValueText value := by
  intro value hvalue
  obtain ⟨row, hrow, rfl⟩ := List.mem_map.mp hvalue
  obtain ⟨hvalues, hlength⟩ := h row hrow
  obtain ⟨e, he⟩ := writes_ofList hy threshold hvalues hlength
  exact .group he.ofText he.parenthesized.ofText

theorem writes_ofRows {x y : String} (hx : isName x = true) (hy : isName y = true) (threshold : Nat)
    {rows : List (List String)}
    (h : ∀ row ∈ rows, (∀ value ∈ row, ValueText value) ∧ row.length ≤ 2 ^ 53)
    (hlength : rows.length ≤ 2 ^ 53) : ∃ e, Writes (ofRows threshold x y rows) e :=
  writes_ofList hx threshold (valueText_rows hy threshold h) (by simpa using hlength)

/-- The code of rows answers as the code of the selected row. -/
theorem answers_ofRows {functions : Functions} {store : Store} {x y : String}
    (hx : isName x = true) (hy : isName y = true) (threshold : Nat) {rows : List (List String)}
    (h : ∀ row ∈ rows, (∀ value ∈ row, ValueText value) ∧ row.length ≤ 2 ^ 53)
    (hlength : rows.length ≤ 2 ^ 53) {i : Nat} {row : List String} (hrow : rows[i]? = some row)
    (hstore : store.HasInt x i) {answer : String}
    (hanswer : Answers functions store (ofList threshold y row) answer) :
    Answers functions store (ofRows threshold x y rows) answer := by
  have hi : i < rows.length := (List.getElem?_eq_some_iff.mp hrow).1
  have hindex : (i : Int).natAbs ≤ 2 ^ 53 := by omega
  obtain ⟨selected, hselected, -, hplace⟩ := answers_ofList hx hindex threshold
    (valueText_rows hy threshold h) (by simpa using hlength)
  obtain rfl := hplace i rfl (parenthesized (ofList threshold y row))
    (by rw [List.getElem?_map, hrow]; rfl)
  obtain ⟨hwritten, hvalue⟩ := hselected functions store hstore
  exact ⟨hwritten, hvalue.trans hanswer.parenthesized.value⟩

/-- Integers that are read from their texts. -/
def Integers (numbers : List Int) : Prop :=
  ∀ n ∈ numbers, Number.Width.bits64.least < n ∧ n ≤ Number.Width.bits64.greatest

theorem writes_int {n : Int} (hleast : Number.Width.bits64.least < n)
    (hgreatest : n ≤ Number.Width.bits64.greatest) : Writes (toString n) (.int n) := by
  obtain ⟨e, he⟩ := (valueText_toString hleast hgreatest).writes
  have hint : Expression.ofText (toString n) = .ok (.int n) :=
    (Expression.faithful_int hleast hgreatest).ofText_eq
  rw [he.ofText] at hint
  exact Except.ok.inj hint ▸ he

theorem Integers.valueText {numbers : List Int} (h : Integers numbers) :
    ∀ value ∈ numbers.map toString, ValueText value := by
  intro value hvalue
  obtain ⟨n, hn, rfl⟩ := List.mem_map.mp hvalue
  exact valueText_toString (h n hn).1 (h n hn).2

/-- The code of a list of integers answers with one of them, with the one in its place if there is
one, and with zero only when there are none. -/
theorem answers_integers {x : String} (hx : isName x = true) {index : Int}
    (hindex : index.natAbs ≤ 2 ^ 53) (threshold : Nat) {numbers : List Int}
    (h : Integers numbers) (hlength : numbers.length ≤ 2 ^ 53) :
    ∃ n : Int, (∀ functions store, store.HasInt x index →
        Answers functions store (ofList threshold x (numbers.map toString)) (toString n)) ∧
      (n ∈ numbers ∨ numbers = [] ∧ n = 0) ∧
      ∀ i : Nat, index = i → ∀ m, numbers[i]? = some m → n = m := by
  obtain ⟨answer, hanswers, hmem, hplace⟩ :=
    answers_ofList hx hindex threshold h.valueText (by simpa using hlength)
  obtain ⟨n, rfl, hn⟩ : ∃ n : Int, toString n = answer ∧ (n ∈ numbers ∨ numbers = [] ∧ n = 0) := by
    rcases hmem with hmem | ⟨hnil, rfl⟩
    · obtain ⟨n, hn, rfl⟩ := List.mem_map.mp hmem
      exact ⟨n, rfl, .inl hn⟩
    · exact ⟨0, rfl, .inr ⟨List.map_eq_nil_iff.mp hnil, rfl⟩⟩
  refine ⟨n, hanswers, hn, ?_⟩
  rintro i rfl m hm
  have htext := hplace i rfl (toString m) (by rw [List.getElem?_map, hm]; rfl)
  exact (Number.toString_int_append_inj Number.endsDigits_nil Number.endsDigits_nil
    (congrArg (·.toList ++ []) htext)).1

theorem evaluateText_of_answers {functions : Functions} {store : Store} {code : String} {n : Int}
    (h : Answers functions store code (toString n))
    (hn : Number.Width.bits64.least < n ∧ n ≤ Number.Width.bits64.greatest) :
    Expression.evaluateText functions store code = .ok (.number (Float.ofInt n)) := by
  rw [h.value, Answers.evaluateText_of_writes (writes_int hn.1 hn.2), Expression.evaluateWith]

/-- A look-up in rows never leaves the selected row. The code is read, and it is worth the integer
in the selected place of the row, or some integer of the row where there is no such place, and zero
when the row is empty. -/
theorem evaluateText_rows (functions : Functions) {store : Store} (threshold : Nat) {x y : String}
    (hx : isName x = true) (hy : isName y = true) {rows : List (List Int)}
    (hrows : ∀ row ∈ rows, row.length < 2 ^ 53 ∧
      ∀ n ∈ row, Number.Width.bits64.least < n ∧ n ≤ Number.Width.bits64.greatest)
    (hlength : rows.length < 2 ^ 53) {r : Nat} {row : List Int} (hrow : rows[r]? = some row)
    {column : Int} (hcolumn : column.natAbs ≤ 2 ^ 53) (hstore : store.HasInt x r)
    (hstore' : store.HasInt y column) :
    (∃ e, Expression.ofText
        (ofRows threshold x y (rows.map fun row => row.map toString)) = .ok e) ∧
      ∃ n : Int, Expression.evaluateText functions store
          (ofRows threshold x y (rows.map fun row => row.map toString)) =
            .ok (.number (Float.ofInt n)) ∧
        (∀ j : Nat, column = j → ∀ m, row[j]? = some m → n = m) ∧
        (row ≠ [] → n ∈ row) ∧ (row = [] → n = 0) := by
  have htexts : ∀ texts ∈ rows.map fun row => row.map toString,
      (∀ value ∈ texts, ValueText value) ∧ texts.length ≤ 2 ^ 53 := by
    intro _ hmem
    obtain ⟨row, hrow, rfl⟩ := List.mem_map.mp hmem
    exact ⟨Integers.valueText (hrows row hrow).2, by simpa using (hrows row hrow).1.le⟩
  obtain ⟨hlength', hintegers⟩ := hrows row (List.mem_of_getElem? hrow)
  obtain ⟨n, hanswers, hmem, hplace⟩ := answers_integers hy hcolumn threshold hintegers hlength'.le
  have hcode : Answers functions store
      (ofRows threshold x y (rows.map fun row => row.map toString)) (toString n) :=
    answers_ofRows hx hy threshold htexts (by simpa using hlength.le)
      (by rw [List.getElem?_map, hrow]; rfl) hstore (hanswers functions store hstore')
  have hbounds : Number.Width.bits64.least < n ∧ n ≤ Number.Width.bits64.greatest := by
    rcases hmem with hmem | ⟨-, rfl⟩
    · exact hintegers n hmem
    · decide
  obtain ⟨e, he⟩ := hcode.written
  refine ⟨⟨e, he.ofText⟩, n, evaluateText_of_answers hcode hbounds, hplace, ?_, ?_⟩
  · exact fun hne => hmem.resolve_right fun hnil => hne hnil.1
  · rintro rfl
    exact (hmem.resolve_left List.not_mem_nil).2

/-- Rows of different lengths, one of them empty, are halved in chains of one value. -/
theorem evaluateText_rows_ragged :
    let store : Store := [("v.row", .number 0.0), ("v.column", .number 1.0)]
    let rows : List (List Int) := [[7, -3], [], [5]]
    isName "v.row" = true ∧ isName "v.column" = true ∧
      (∀ row ∈ rows, row.length < 2 ^ 53 ∧
        ∀ n ∈ row, Number.Width.bits64.least < n ∧ n ≤ Number.Width.bits64.greatest) ∧
      rows.length < 2 ^ 53 ∧ rows[0]? = some [7, -3] ∧ (1 : Int).natAbs ≤ 2 ^ 53 ∧
      store.HasInt "v.row" (0 : Nat) ∧ store.HasInt "v.column" 1 ∧
      Expression.evaluateText [] store
          (ofRows 1 "v.row" "v.column" (rows.map fun row => row.map toString)) =
        .ok (.number (Float.ofInt (-3))) := by
  intro store rows
  have hx : isName "v.row" = true := by decide
  have hy : isName "v.column" = true := by decide
  have hrows : ∀ row ∈ rows, row.length < 2 ^ 53 ∧
      ∀ n ∈ row, Number.Width.bits64.least < n ∧ n ≤ Number.Width.bits64.greatest := by decide
  have hlength : rows.length < 2 ^ 53 := by decide
  have hrow : rows[0]? = some [7, -3] := rfl
  have hcolumn : (1 : Int).natAbs ≤ 2 ^ 53 := by decide
  have hstore : store.HasInt "v.row" (0 : Nat) := ⟨0.0, by decide +kernel, by decide +kernel⟩
  have hstore' : store.HasInt "v.column" 1 := ⟨1.0, by decide +kernel, by decide +kernel⟩
  obtain ⟨-, n, hvalue, hplace, -⟩ :=
    evaluateText_rows [] 1 hx hy hrows hlength hrow hcolumn hstore hstore'
  rw [hplace 1 rfl (-3) rfl] at hvalue
  exact ⟨hx, hy, hrows, hlength, hrow, hcolumn, hstore, hstore', hvalue⟩

/-- Numbers whose texts are integer literals. -/
def Literals (numbers : List Nat) : Prop :=
  ∀ n ∈ numbers, (n : Int) ≤ Number.Width.bits64.greatest

theorem literals_of_lt {numbers : List Nat} (h : ∀ n ∈ numbers, n < 2 ^ 63) :
    Literals numbers := by
  intro n hn
  have hgreatest : Number.Width.bits64.greatest = 2 ^ 63 - 1 := by decide
  have hlt := h n hn
  omega

theorem Literals.integers {numbers : List Nat} (h : Literals numbers) :
    Integers (numbers.map fun (n : Nat) => (n : Int)) := by
  intro _ hmem
  obtain ⟨n, hn, rfl⟩ := List.mem_map.mp hmem
  exact ⟨Int.lt_of_lt_of_le (by decide) (Int.natCast_nonneg n), h n hn⟩

theorem map_toString_natCast (numbers : List Nat) :
    (numbers.map fun (n : Nat) => (n : Int)).map toString = numbers.map toString := by
  rw [List.map_map]
  rfl

theorem Literals.valueText {numbers : List Nat} (h : Literals numbers) :
    ∀ value ∈ numbers.map toString, ValueText value :=
  map_toString_natCast numbers ▸ h.integers.valueText

theorem bare_of_mem_numbers {numbers : List Nat} {value : String}
    (h : value ∈ numbers.map toString) : Bare value := by
  obtain ⟨n, -, rfl⟩ := List.mem_map.mp h
  exact bare_toString_int n

theorem writes_toString {n : Nat} (h : (n : Int) ≤ Number.Width.bits64.greatest) :
    Writes (toString n) (.int n) :=
  writes_int (Int.lt_of_lt_of_le (by decide) (Int.natCast_nonneg n)) h

section

variable (threshold : Nat) {x y : String}

theorem legible_ofList (hx : isName x = true) {numbers : List Nat} (h : Literals numbers)
    (hlength : numbers.length ≤ 2 ^ 53) :
    (Expression.raw (ofList threshold x (numbers.map toString))).Legible := by
  obtain ⟨e, he⟩ := writes_ofList hx threshold h.valueText (by simpa using hlength)
  exact (he.legible (bare_ofList (bare_of_isName hx) threshold fun _ => bare_of_mem_numbers)).1

/-- The code of a list of numbers answers with the number under the index. -/
theorem answers_numbers (hx : isName x = true) {index : Int} (hindex : index.natAbs ≤ 2 ^ 53)
    {numbers : List Nat} (h : Literals numbers) (hlength : numbers.length ≤ 2 ^ 53) :
    ∃ n : Nat, (n : Int) ≤ Number.Width.bits64.greatest ∧
      (∀ functions store, store.HasInt x index →
        Answers functions store (ofList threshold x (numbers.map toString)) (toString (n : Int))) ∧
      ∀ i : Nat, index = i → ∀ m, numbers[i]? = some m → n = m := by
  obtain ⟨answer, hanswers, hmem, hplace⟩ :=
    answers_integers hx hindex threshold h.integers (by simpa using hlength)
  rw [map_toString_natCast] at hanswers
  obtain ⟨n, hn, rfl⟩ : ∃ n : Nat, (n : Int) ≤ Number.Width.bits64.greatest ∧ answer = n := by
    rcases hmem with hmem | ⟨-, rfl⟩
    · obtain ⟨n, hn, rfl⟩ := List.mem_map.mp hmem
      exact ⟨n, h n hn, rfl⟩
    · exact ⟨0, by decide, rfl⟩
  refine ⟨n, hn, hanswers, fun i hi m hm => Int.ofNat_inj.mp (hplace i hi m ?_)⟩
  rw [List.getElem?_map, hm]
  rfl

/-- The code of a list of numbers is worth the number under the index. -/
theorem evaluateText_ofList (hx : isName x = true) {index : Int} (hindex : index.natAbs ≤ 2 ^ 53)
    {numbers : List Nat} (h : Literals numbers) (hlength : numbers.length ≤ 2 ^ 53) :
    ∃ n : Nat, (∀ functions store, store.HasInt x index →
        Expression.evaluateText functions store (ofList threshold x (numbers.map toString)) =
          .ok (.number (Float.ofInt n))) ∧
      ∀ i : Nat, index = i → ∀ m, numbers[i]? = some m → n = m := by
  obtain ⟨n, hn, hanswers, hplace⟩ := answers_numbers threshold hx hindex h hlength
  have hleast : Number.Width.bits64.least < (n : Int) :=
    Int.lt_of_lt_of_le (by decide) (Int.natCast_nonneg n)
  exact ⟨n, fun functions store hstore =>
    evaluateText_of_answers (hanswers functions store hstore) ⟨hleast, hn⟩, hplace⟩

theorem ofRows_map (rows : List (List Nat)) :
    ofRows threshold x y (rows.map fun row => row.map toString) =
      ofList threshold x
        (rows.map fun row => parenthesized (ofList threshold y (row.map toString))) := by
  rw [ofRows, List.map_map]
  rfl

variable {rows : List (List Nat)}

theorem valueText_numbers (h : ∀ row ∈ rows, Literals row ∧ row.length ≤ 2 ^ 53) :
    ∀ row ∈ rows.map fun row => row.map toString,
      (∀ value ∈ row, ValueText value) ∧ row.length ≤ 2 ^ 53 := by
  intro _ hmem
  obtain ⟨row, hrow, rfl⟩ := List.mem_map.mp hmem
  obtain ⟨hliterals, hlength⟩ := h row hrow
  exact ⟨hliterals.valueText, by simpa using hlength⟩

theorem legible_ofRows (hx : isName x = true) (hy : isName y = true)
    (h : ∀ row ∈ rows, Literals row ∧ row.length ≤ 2 ^ 53) (hlength : rows.length ≤ 2 ^ 53) :
    (Expression.raw
      (ofRows threshold x y (rows.map fun row => row.map toString))).Legible := by
  have hbare : Bare (ofRows threshold x y (rows.map fun row => row.map toString)) := by
    apply bare_ofRows (bare_of_isName hx) (bare_of_isName hy)
    intro row hrow value hvalue
    obtain ⟨numbers, -, rfl⟩ := List.mem_map.mp hrow
    exact bare_of_mem_numbers hvalue
  obtain ⟨e, he⟩ :=
    writes_ofRows hx hy threshold (valueText_numbers h) (by simpa using hlength)
  exact (he.legible hbare).1

/-- The code of rows of numbers is worth what the code of the selected row is worth. -/
theorem evaluateText_ofRows (hx : isName x = true) (hy : isName y = true) {i : Nat}
    {index : Int} (hindex : index.natAbs ≤ 2 ^ 53) {row : List Nat}
    (h : ∀ row ∈ rows, Literals row ∧ row.length ≤ 2 ^ 53) (hlength : rows.length ≤ 2 ^ 53)
    (hrow : rows[i]? = some row) :
    ∃ n : Nat, (∀ functions store, store.HasInt x i → store.HasInt y index →
        Expression.evaluateText functions store
          (ofRows threshold x y (rows.map fun row => row.map toString)) =
            .ok (.number (Float.ofInt n))) ∧
      ∀ j : Nat, index = j → ∀ m, row[j]? = some m → n = m := by
  obtain ⟨hliterals, hlength'⟩ := h row (List.mem_of_getElem? hrow)
  obtain ⟨n, hn, hanswers, hplace⟩ := answers_numbers threshold hy hindex hliterals hlength'
  have hleast : Number.Width.bits64.least < (n : Int) :=
    Int.lt_of_lt_of_le (by decide) (Int.natCast_nonneg n)
  refine ⟨n, fun functions store hstore hstore' => evaluateText_of_answers ?_ ⟨hleast, hn⟩, hplace⟩
  exact answers_ofRows hx hy threshold (valueText_numbers h) (by simpa using hlength)
    (by rw [List.getElem?_map, hrow]; rfl) hstore (hanswers functions store hstore')

end

end Lookup
end Hologram.Script
