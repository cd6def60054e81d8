import Hologram.Proofs.Number.Whole
import Hologram.Proofs.Script.Emission
import Hologram.Script.Evaluation

/-! Which conditions count as true. A comparison of a variable with an integer is decided by the
integer that the variable has, also after it was written out and read again. -/
namespace Hologram.Script

@[simp] theorem Value.isTruthy_ofBool (b : Bool) : (Value.ofBool b).isTruthy = b := by
  cases b <;> decide +kernel

/-- A variable that has an integer as its value. -/
def Store.HasInt (store : Store) (x : String) (n : Int) : Prop :=
  ∃ value, Expression.variableValue store x = .number value ∧ (value == Float.ofInt n) = true

/-- What an operator that compares says of two integers. -/
def BinaryOperator.onInts? : BinaryOperator → Option (Int → Int → Bool)
  | .equal => some fun a b => decide (a = b)
  | .notEqual => some fun a b => decide (a ≠ b)
  | .less => some fun a b => decide (a < b)
  | .lessEqual => some fun a b => decide (a ≤ b)
  | .greater => some fun a b => decide (b < a)
  | .greaterEqual => some fun a b => decide (b ≤ a)
  | _ => none

/-- Doubles that are integers are compared as these integers. -/
theorem BinaryOperator.onNumbers_of_isInt {op : BinaryOperator} {relation : Int → Int → Bool}
    (hop : op.onInts? = some relation) {x y : Float} {a b : Int} (hx : Number.IsInt x a)
    (hy : Number.IsInt y b) : op.onNumbers x y = Value.ofBool (relation a b) := by
  have hne : (x != y) = decide (a ≠ b) := by
    rw [bne, hx.beq hy, decide_not]
  cases op <;> cases hop <;>
    simp only [onNumbers, hx.beq hy, hne, hx.lt hy, hy.lt hx, hx.le hy, hy.le hx]

namespace Expression

variable {functions : Functions} {store : Store}

/-- A condition has a value, and it counts as true or not. -/
def Decides (functions : Functions) (store : Store) (e : Expression) (b : Bool) : Prop :=
  ∀ rawValue, ∃ value, e.evaluateWith functions store rawValue = .ok value ∧ value.isTruthy = b

theorem decides_name (x : String) :
    Decides functions store (.name x) (variableValue store x).isTruthy :=
  fun rawValue => ⟨variableValue store x, evaluateWith_name _ _ rawValue x, rfl⟩

theorem decides_compare {op : BinaryOperator} {relation : Int → Int → Bool}
    (hop : op.onInts? = some relation) {x : String} {a b : Int} (hx : store.HasInt x a)
    (ha : a.natAbs ≤ 2 ^ 53) (hb : b.natAbs ≤ 2 ^ 53) {p : Bool} (hp : relation a b = p) :
    Decides functions store (.binary op (.name x) (.int b)) p := by
  subst hp
  intro rawValue
  obtain ⟨value, hvalue, hint⟩ := hx
  have hnumbers := op.onNumbers_of_isInt hop ((Number.isInt_ofInt ha).of_beq hint)
    (Number.isInt_ofInt hb)
  refine ⟨_, ?_, Value.isTruthy_ofBool _⟩
  rw [← hnumbers]
  cases op <;> first | contradiction | (simp only [evaluateWith, hvalue]; rfl)

namespace Decides

variable {first second : Expression} {p q : Bool}

theorem not (h : Decides functions store first p) :
    Decides functions store (.unary .not first) (!p) := by
  intro rawValue
  obtain ⟨value, hvalue, rfl⟩ := h rawValue
  exact ⟨_, by rw [evaluateWith, hvalue]; rfl, Value.isTruthy_ofBool _⟩

theorem and (h : Decides functions store first p) (h' : Decides functions store second q) :
    Decides functions store (.binary .and first second) (p && q) := by
  intro rawValue
  obtain ⟨value, hvalue, rfl⟩ := h rawValue
  obtain ⟨value', hvalue', rfl⟩ := h' rawValue
  refine ⟨.ofBool (value.isTruthy && value'.isTruthy), ?_, Value.isTruthy_ofBool _⟩
  rw [evaluateWith, hvalue, hvalue']
  cases hfirst : value.isTruthy <;> simp [bind, Except.bind, hfirst] <;> rfl

theorem or (h : Decides functions store first p) (h' : Decides functions store second q) :
    Decides functions store (.binary .or first second) (p || q) := by
  intro rawValue
  obtain ⟨value, hvalue, rfl⟩ := h rawValue
  obtain ⟨value', hvalue', rfl⟩ := h' rawValue
  refine ⟨.ofBool (value.isTruthy || value'.isTruthy), ?_, Value.isTruthy_ofBool _⟩
  rw [evaluateWith, hvalue, hvalue']
  cases hfirst : value.isTruthy <;> simp [bind, Except.bind, hfirst] <;> rfl

/-- A condition that chooses between two others is decided by the one that it selects. -/
theorem choose {third : Expression} {r : Bool} (h : Decides functions store first p)
    (h' : Decides functions store second q) (h'' : Decides functions store third r) :
    Decides functions store (.conditional first second third) (if p then q else r) := by
  intro rawValue
  obtain ⟨value, hvalue, rfl⟩ := h rawValue
  rw [evaluateWith, hvalue, ok_bind]
  split_ifs
  · exact h' rawValue
  · exact h'' rawValue

end Decides

/-- An expression that is read from its text as it is. -/
def Faithful (e : Expression) : Prop :=
  ∀ d ∈ e.parts, d.Legible ∧ d.signsApart = true ∧ d.Native

theorem Faithful.readsBack {e : Expression} (h : e.Faithful) : e.ReadsBack :=
  Expression.readsBack fun d hd => ⟨(h d hd).1, (h d hd).2.1⟩

theorem Faithful.ofText_eq {e : Expression} (h : e.Faithful) : ofText e.text = .ok e := by
  rw [ofText_text_settled fun d hd => ⟨(h d hd).1, (h d hd).2.1⟩,
    settled_eq_self fun d hd => (h d hd).2.2]

theorem faithful_int {n : Int} (hleast : Number.Width.bits64.least < n)
    (hgreatest : n ≤ Number.Width.bits64.greatest) : (int n).Faithful := by
  have hsymmetric := Number.Width.least_eq .bits64
  exact List.forall_mem_singleton.mpr ⟨⟨hleast, hgreatest⟩, rfl, by omega, hgreatest⟩

theorem Faithful.binary {op : BinaryOperator} {a b : Expression} (hop : op ≠ .subtract)
    (ha : a.Faithful) (hb : b.Faithful) : (Expression.binary op a b).Faithful := by
  have hsigns : (Expression.binary op a b).signsApart = true := by
    cases op <;> first | contradiction | rfl
  simp only [Faithful, parts, List.forall_mem_cons, List.forall_mem_append]
  exact ⟨⟨trivial, hsigns, trivial⟩, ha, hb⟩

theorem Faithful.conditional {c s u : Expression} (hc : c.Faithful) (hs : s.Faithful)
    (hu : u.Faithful) : (Expression.conditional c s u).Faithful := by
  simp only [Faithful, parts, List.forall_mem_cons, List.forall_mem_append]
  exact ⟨⟨trivial, rfl, trivial⟩, ⟨hc, hs⟩, hu⟩

/-- A condition that was written out is decided as the condition itself. -/
theorem Decides.evaluateText {e : Expression} {b : Bool} (h : Decides functions store e b)
    (he : e.Faithful) :
    ∃ value, evaluateText functions store e.text = .ok value ∧ value.isTruthy = b := by
  unfold Expression.evaluateText
  rw [he.ofText_eq]
  exact h _

end Expression
end Hologram.Script
