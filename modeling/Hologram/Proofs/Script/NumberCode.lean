import Hologram.Proofs.Script.NumberTable

/-! Expressions that are worth a number whenever their variables are numbers. No rounding and no
range comes in, so this holds of any numbers, and code made of such expressions never fails. -/
namespace Hologram.Script

def Store.IsNumber (store : Store) (x : String) : Prop :=
  ∃ value, Expression.variableValue store x = .number value

namespace BinaryOperator

theorem exists_onNumbers (op : BinaryOperator) (x y : Float) :
    ∃ z, op.onNumbers x y = .number z := by
  cases op <;> exact ⟨_, rfl⟩

end BinaryOperator

namespace Expression

variable {functions : Functions} {store : Store} {a b c : Expression}

/-- An expression that is worth a number, whatever raw code would be worth. -/
def IsNumber (functions : Functions) (store : Store) (e : Expression) : Prop :=
  ∃ x, ∀ rawValue, e.evaluateWith functions store rawValue = .ok (.number x)

/-- A number counts as true or not. -/
theorem IsNumber.exists_decides (h : a.IsNumber functions store) :
    ∃ p, a.Decides functions store p := by
  obtain ⟨x, hx⟩ := h
  exact ⟨Value.isTruthy (.number x), fun rawValue => ⟨_, hx rawValue, rfl⟩⟩

theorem isNumber_int (n : Int) : IsNumber functions store (.int n) :=
  ⟨Float.ofInt n, fun rawValue => by rw [evaluateWith]⟩

theorem isNumber_name {x : String} (h : store.IsNumber x) : IsNumber functions store (.name x) := by
  obtain ⟨value, hvalue⟩ := h
  exact ⟨value, fun rawValue => by rw [evaluateWith_name, hvalue]⟩

namespace IsNumber

/-- An operator that asks for both of its operands makes a number of numbers. -/
theorem binary {op : BinaryOperator} (hop : op ≠ .coalesce ∧ op ≠ .or ∧ op ≠ .and)
    (ha : a.IsNumber functions store) (hb : b.IsNumber functions store) :
    IsNumber functions store (.binary op a b) := by
  obtain ⟨x, hx⟩ := ha
  obtain ⟨y, hy⟩ := hb
  obtain ⟨z, hz⟩ := op.exists_onNumbers x y
  refine ⟨z, fun rawValue => ?_⟩
  rw [← hz]
  cases op <;> first
    | (simp only [evaluateWith, hx, hy]; rfl)
    | simp at hop

theorem conditional (hc : ∃ p, c.Decides functions store p) (ha : a.IsNumber functions store)
    (hb : b.IsNumber functions store) : IsNumber functions store (.conditional c a b) := by
  obtain ⟨p, hp⟩ := hc
  obtain ⟨x, hx⟩ := ha
  obtain ⟨y, hy⟩ := hb
  refine ⟨if p then x else y, fun rawValue => ?_⟩
  obtain ⟨value, hvalue, rfl⟩ := hp rawValue
  rw [evaluateWith, hvalue, ok_bind, hx, hy]
  split_ifs <;> rfl

/-- The built-in remainder, which the surroundings do not replace, has a value for every divisor. -/
theorem remainder (hfunctions : functions.get? "math.mod" = none)
    (ha : a.IsNumber functions store) (hb : b.IsNumber functions store) :
    IsNumber functions store (.call "math.mod" [a, b]) := by
  obtain ⟨x, hx⟩ := ha
  obtain ⟨y, hy⟩ := hb
  refine ⟨Number.remainder x y, fun rawValue => ?_⟩
  simp only [evaluateWith, evaluateAllWith, hx, hy, ok_bind, callFunction, hfunctions]
  rfl

end IsNumber

/-- A truth value is a number. -/
theorem Decides.isNumber_not {p : Bool} (h : c.Decides functions store p) :
    IsNumber functions store (.unary .not c) := by
  refine ⟨if p then 0.0 else 1.0, fun rawValue => ?_⟩
  obtain ⟨value, hvalue, rfl⟩ := h rawValue
  rw [evaluateWith, hvalue]
  cases htruthy : value.isTruthy <;> simp [bind, Except.bind, htruthy] <;> rfl

end Expression

/-- Code that is read wherever it stands, and that is worth a number. -/
def IsNumberCode (functions : Functions) (store : Store) (code : String) : Prop :=
  ∃ e, Writes code e ∧ e.IsNumber functions store

namespace IsNumberCode

variable {functions : Functions} {store : Store} {x : String} {code code' : String}

/-- What a code is read as is worth the number of the code. -/
theorem settled_raw (h : IsNumberCode functions store code) :
    (Expression.raw code).settled.IsNumber functions store := by
  obtain ⟨e, he, hnumber⟩ := h
  rwa [Expression.settled, he.ofText]

theorem parenthesized (h : IsNumberCode functions store code) :
    IsNumberCode functions store (parenthesized code) := by
  obtain ⟨e, he, hnumber⟩ := h
  exact ⟨e, he.parenthesized, hnumber⟩

/-- A choice by a comparison of a number with an integer. -/
theorem conditional {op : BinaryOperator} (hop : op = .equal ∨ op = .less)
    (hx : Lexer.isName x = true) (hstore : store.IsNumber x) {k : Int} (hk : k.natAbs ≤ 2 ^ 53)
    (h : IsNumberCode functions store code) (h' : IsNumberCode functions store code') :
    IsNumberCode functions store (x ++ op.symbol ++ toString k ++ "?" ++ code ++ ":" ++ code') := by
  obtain ⟨s, hs, hnumber⟩ := h
  obtain ⟨u, hu, hnumber'⟩ := h'
  refine ⟨_, .conditional (Answers.readsAs_compare hop hx hk) hs hu, ?_⟩
  refine .conditional (Expression.IsNumber.exists_decides (.binary ?_
    (Expression.isNumber_name hstore) (Expression.isNumber_int k))) hnumber hnumber'
  rcases hop with rfl | rfl <;> decide

end IsNumberCode

namespace Lookup

variable {functions : Functions} {store : Store} {x y : String} {entries : Lookup}

/-- Entries with keys that are doubles and with values that are numbers. -/
def Numeric (functions : Functions) (store : Store) (entries : Lookup) : Prop :=
  ∀ entry ∈ entries, entry.1.natAbs ≤ 2 ^ 53 ∧ IsNumberCode functions store entry.2

theorem isNumberCode_chain (hx : Lexer.isName x = true) (hstore : store.IsNumber x)
    (h : entries.Numeric functions store) : IsNumberCode functions store (chain x entries) := by
  induction entries with
  | nil => exact ⟨_, writes_zero, Expression.isNumber_int 0⟩
  | cons entry rest ih =>
    obtain ⟨key, value⟩ := entry
    obtain ⟨⟨hkey, hvalue⟩, hrest⟩ := List.forall_mem_cons.mp h
    match rest, hrest, ih with
    | [], _, _ => exact hvalue
    | [(key', last)], hrest, ih => exact .conditional (.inl rfl) hx hstore hkey hvalue (ih hrest)
    | next :: after :: others, hrest, ih =>
      exact .conditional (.inl rfl) hx hstore hkey hvalue (ih hrest).parenthesized

theorem isNumberCode_halved (hx : Lexer.isName x = true) (hstore : store.IsNumber x)
    (threshold : Nat) (h : entries.Numeric functions store) :
    IsNumberCode functions store (halved threshold x entries) := by
  fun_induction halved threshold x entries with
  | case1 entries => exact isNumberCode_chain hx hstore h
  | case2 entries hlength middle boundary ihlower ihupper =>
    have hlower := ihlower fun entry hentry => h entry (List.mem_of_mem_take hentry)
    have hupper := ihupper fun entry hentry => h entry (List.mem_of_mem_drop hentry)
    have hboundary : boundary.natAbs ≤ 2 ^ 53 := by
      cases hdrop : entries.drop middle with
      | nil => simp [boundary, hdrop]
      | cons first rest =>
        have hfirst : first ∈ entries := List.mem_of_mem_drop (hdrop ▸ List.mem_cons_self)
        simpa [boundary, hdrop] using (h first hfirst).1
    exact .conditional (.inr rfl) hx hstore hboundary hlower.parenthesized hupper.parenthesized

/-- The code of a list of numbers is worth a number for any number as the index. -/
theorem isNumberCode_ofList (hx : Lexer.isName x = true) (hstore : store.IsNumber x)
    (threshold : Nat) {values : List String} (hlength : values.length ≤ 2 ^ 53)
    (h : ∀ value ∈ values, IsNumberCode functions store value) :
    IsNumberCode functions store (ofList threshold x values) := by
  apply isNumberCode_halved hx hstore
  intro entry hentry
  obtain ⟨⟨value, key⟩, hmem, rfl⟩ := List.mem_map.mp hentry
  have hkey := List.snd_lt_of_mem_zipIdx hmem
  exact ⟨by dsimp only; omega, h value (List.fst_mem_of_mem_zipIdx hmem)⟩

theorem isNumberCode_toString {n : Nat} (h : (n : Int) ≤ Number.Width.bits64.greatest) :
    IsNumberCode functions store (toString n) :=
  ⟨_, writes_toString h, Expression.isNumber_int n⟩

theorem isNumberCode_numbers (hx : Lexer.isName x = true) (hstore : store.IsNumber x)
    (threshold : Nat) {numbers : List Nat} (hlength : numbers.length ≤ 2 ^ 53)
    (h : Literals numbers) :
    IsNumberCode functions store (ofList threshold x (numbers.map toString)) := by
  apply isNumberCode_ofList hx hstore threshold (by simpa using hlength)
  intro value hvalue
  obtain ⟨n, hn, rfl⟩ := List.mem_map.mp hvalue
  exact isNumberCode_toString (h n hn)

/-- The code of rows of numbers is worth a number for any numbers as the indices. -/
theorem isNumberCode_rows (hx : Lexer.isName x = true) (hy : Lexer.isName y = true)
    (hstore : store.IsNumber x) (hstore' : store.IsNumber y) (threshold : Nat)
    {rows : List (List Nat)} (hlength : rows.length ≤ 2 ^ 53)
    (h : ∀ row ∈ rows, Literals row ∧ row.length ≤ 2 ^ 53) :
    IsNumberCode functions store
      (ofRows threshold x y (rows.map fun row => row.map toString)) := by
  rw [ofRows_map]
  apply isNumberCode_ofList hx hstore threshold (by simpa using hlength)
  intro value hvalue
  obtain ⟨row, hrow, rfl⟩ := List.mem_map.mp hvalue
  obtain ⟨hliterals, hrow⟩ := h row hrow
  exact (isNumberCode_numbers hy hstore' threshold hrow hliterals).parenthesized

end Lookup
end Hologram.Script
