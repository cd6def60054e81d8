import Hologram.Proofs.Number.Arithmetic
import Hologram.Proofs.Script.Decision

/-! Expressions that are worth an integer, whatever raw code would be worth. -/
namespace Hologram.Script

/-- A variable that is an integer. -/
def Store.Counts (store : Store) (x : String) (n : Int) : Prop :=
  ∃ value, Expression.variableValue store x = .number value ∧ Number.IsInt value n

theorem Store.Counts.hasInt {store : Store} {x : String} {n : Int} (h : store.Counts x n)
    (hn : n.natAbs ≤ 2 ^ 53) : store.HasInt x n := by
  obtain ⟨value, hvalue, hint⟩ := h
  exact ⟨value, hvalue, by simpa using hint.beq (Number.isInt_ofInt hn)⟩

theorem Store.HasInt.counts {store : Store} {x : String} {n : Int} (h : store.HasInt x n)
    (hn : n.natAbs ≤ 2 ^ 53) : store.Counts x n := by
  obtain ⟨value, hvalue, heq⟩ := h
  exact ⟨value, hvalue, (Number.isInt_ofInt hn).of_beq heq⟩

namespace Expression

variable {functions : Functions} {store : Store}

mutual

/-- An expression that was read holds no raw code, so it is worth the same whatever raw code is. -/
theorem evaluateWith_eq_of_native {e : Expression} (h : ∀ d ∈ e.parts, d.Native)
    (rawValue rawValue' : String → Except EvalError Value) :
    e.evaluateWith functions store rawValue = e.evaluateWith functions store rawValue' := by
  cases e with
  | raw code => exact absurd (h _ (.head _)) id
  | call f es =>
    have hes := evaluateAllWith_eq_of_native (List.forall_mem_cons.mp h).2 rawValue rawValue'
    simp only [evaluateWith, hes]
  | binary op a b =>
    simp only [parts, List.forall_mem_cons, List.forall_mem_append] at h
    have ha := evaluateWith_eq_of_native h.2.1 rawValue rawValue'
    have hb := evaluateWith_eq_of_native h.2.2 rawValue rawValue'
    cases op with
    | coalesce =>
      cases a with
      | name x => simp only [evaluateWith, hb]
      | _ =>
        rw [evaluateWith, evaluateWith]
        · exact ha
        all_goals nofun
    | _ => simp only [evaluateWith, ha, hb]
  | unary op a =>
    simp only [parts, List.forall_mem_cons] at h
    have ha := evaluateWith_eq_of_native h.2 rawValue rawValue'
    cases op <;> simp only [evaluateWith, ha]
  | conditional c s u =>
    simp only [parts, List.forall_mem_cons, List.forall_mem_append] at h
    simp only [evaluateWith, evaluateWith_eq_of_native h.2.1.1 rawValue rawValue',
      evaluateWith_eq_of_native h.2.1.2 rawValue rawValue',
      evaluateWith_eq_of_native h.2.2 rawValue rawValue']
  | guarded c s =>
    simp only [parts, List.forall_mem_cons, List.forall_mem_append] at h
    simp only [evaluateWith, evaluateWith_eq_of_native h.2.1 rawValue rawValue',
      evaluateWith_eq_of_native h.2.2 rawValue rawValue']
  | _ => simp only [evaluateWith]

theorem evaluateAllWith_eq_of_native {es : List Expression} (h : ∀ d ∈ partsOfAll es, d.Native)
    (rawValue rawValue' : String → Except EvalError Value) :
    evaluateAllWith functions store rawValue es =
      evaluateAllWith functions store rawValue' es := by
  cases es with
  | nil => rfl
  | cons e es =>
    simp only [partsOfAll, List.forall_mem_append] at h
    simp only [evaluateAllWith, evaluateWith_eq_of_native h.1 rawValue rawValue',
      evaluateAllWith_eq_of_native h.2 rawValue rawValue']

end

/-- What a text is worth, the expression that it spells is worth as well. -/
theorem evaluateWith_of_evaluateText {text : String} {e : Expression} (h : ofText text = .ok e)
    (rawValue : String → Except EvalError Value) :
    e.evaluateWith functions store rawValue = evaluateText functions store text := by
  unfold evaluateText
  rw [h]
  exact evaluateWith_eq_of_native (native_of_ofText h) _ _

/-- Where code stands in other code that is read, it is worth what its text is worth. -/
theorem evaluateWith_settled_raw {code : String} {e : Expression} (h : ofText code = .ok e)
    (rawValue : String → Except EvalError Value) :
    (raw code).settled.evaluateWith functions store rawValue =
      evaluateText functions store code := by
  rw [settled, h]
  exact evaluateWith_of_evaluateText h rawValue

/-- An expression that is worth an integer. -/
def Counts (functions : Functions) (store : Store) (e : Expression) (n : Int) : Prop :=
  ∀ rawValue, ∃ value, e.evaluateWith functions store rawValue = .ok (.number value) ∧
    Number.IsInt value n

theorem counts_int {n : Int} (hn : n.natAbs ≤ 2 ^ 53) : Counts functions store (.int n) n :=
  fun _ => ⟨Float.ofInt n, by rw [evaluateWith], Number.isInt_ofInt hn⟩

theorem counts_name {x : String} {n : Int} (h : store.Counts x n) :
    Counts functions store (.name x) n := by
  obtain ⟨value, hvalue, hint⟩ := h
  exact fun rawValue => ⟨value, by rw [evaluateWith_name, hvalue], hint⟩

namespace Counts

variable {a b : Expression} {m n : Int}

theorem add (ha : Counts functions store a m) (hb : Counts functions store b n)
    (h : (m + n).natAbs ≤ 2 ^ 53) : Counts functions store (.binary .add a b) (m + n) := by
  intro rawValue
  obtain ⟨x, hx, hm⟩ := ha rawValue
  obtain ⟨y, hy, hn⟩ := hb rawValue
  exact ⟨x + y, by simp only [evaluateWith, hx, hy]; rfl, hm.add hn h⟩

theorem subtract (ha : Counts functions store a m) (hb : Counts functions store b n)
    (h : (m - n).natAbs ≤ 2 ^ 53) : Counts functions store (.binary .subtract a b) (m - n) := by
  intro rawValue
  obtain ⟨x, hx, hm⟩ := ha rawValue
  obtain ⟨y, hy, hn⟩ := hb rawValue
  exact ⟨x - y, by simp only [evaluateWith, hx, hy]; rfl, hm.sub hn h⟩

/-- The built-in remainder, which the surroundings do not replace. -/
theorem remainder (hfunctions : functions.get? "math.mod" = none)
    (ha : Counts functions store a m) (hb : Counts functions store b n) (hn : n ≠ 0)
    (h : m.natAbs ≤ 2 ^ 53) : Counts functions store (.call "math.mod" [a, b]) (m.tmod n) := by
  intro rawValue
  obtain ⟨x, hx, hm⟩ := ha rawValue
  obtain ⟨y, hy, hn'⟩ := hb rawValue
  refine ⟨Number.remainder x y, ?_, hm.remainder hn' hn h⟩
  simp only [evaluateWith, evaluateAllWith, hx, hy, ok_bind, callFunction, hfunctions]
  rfl

/-- An integer counts as true when it is not zero. -/
theorem decides (h : Counts functions store a m) : Decides functions store a (decide (m ≠ 0)) := by
  intro rawValue
  obtain ⟨x, hx, hm⟩ := h rawValue
  have hzero : Number.IsInt 0.0 0 := Number.isInt_ofInt (a := 0) (by decide)
  exact ⟨_, hx, by rw [Value.isTruthy, bne, hm.beq hzero, decide_not]⟩

/-- Integers are compared as what they are. -/
theorem compare {op : BinaryOperator} {relation : Int → Int → Bool}
    (hop : op.onInts? = some relation) (ha : Counts functions store a m)
    (hb : Counts functions store b n) :
    Decides functions store (.binary op a b) (relation m n) := by
  intro rawValue
  obtain ⟨x, hx, hm⟩ := ha rawValue
  obtain ⟨y, hy, hn⟩ := hb rawValue
  refine ⟨_, ?_, Value.isTruthy_ofBool _⟩
  rw [← op.onNumbers_of_isInt hop hm hn]
  cases op <;> first | contradiction | (simp only [evaluateWith, hx, hy]; rfl)

end Counts

theorem isInt_ofBool (b : Bool) : ∃ value, Value.ofBool b = .number value ∧
    Number.IsInt value (if b then 1 else 0) := by
  cases b with
  | false => exact ⟨_, rfl, Number.isInt_ofInt (a := 0) (by decide)⟩
  | true =>
    have hone : Float.ofInt 1 = 1.0 := by decide +kernel
    exact ⟨1.0, rfl, hone ▸ Number.isInt_ofInt (a := 1) (by decide)⟩

namespace Decides

variable {c s u : Expression} {p q : Bool} {m n : Int}

/-- The opposite of a condition is one or zero. -/
theorem counts_not (h : Decides functions store c p) :
    Counts functions store (.unary .not c) (if p then 0 else 1) := by
  intro rawValue
  obtain ⟨value, hvalue, rfl⟩ := h rawValue
  obtain ⟨x, hx, hint⟩ := isInt_ofBool !value.isTruthy
  refine ⟨x, by rw [evaluateWith, hvalue, ← hx]; rfl, ?_⟩
  cases hp : value.isTruthy <;> simpa [hp] using hint

/-- What comes after a condition that does not hold is not asked for. -/
theorem and_of_false (h : Decides functions store c false) (s : Expression) :
    Decides functions store (.binary .and c s) false := by
  intro rawValue
  obtain ⟨value, hvalue, hfalse⟩ := h rawValue
  refine ⟨.ofBool false, ?_, Value.isTruthy_ofBool _⟩
  rw [evaluateWith, hvalue]
  simp [hfalse]
  rfl

/-- A choice between integers is the one that the condition selects. -/
theorem conditional (h : Decides functions store c p) (hs : Counts functions store s m)
    (hu : Counts functions store u n) :
    Counts functions store (.conditional c s u) (if p then m else n) := by
  intro rawValue
  obtain ⟨value, hvalue, rfl⟩ := h rawValue
  rw [evaluateWith, hvalue, ok_bind]
  split_ifs
  · exact hs rawValue
  · exact hu rawValue

end Decides

end Expression
end Hologram.Script
