import Hologram.Proofs.Script.Signs

/-! Indices of negative literals. In the text of such an index the minus sign stands before the
whole, so that it is read as the opposite of an index. -/
namespace Hologram.Script
namespace Expression

/-- Whether the text of an index of an expression begins with the sign of a negative literal. -/
def hasNegativeRoot : Expression → Bool
  | int n => n < 0
  | index target _ => target.hasNegativeRoot
  | _ => false

/-- An expression without the minus sign that its text begins with. -/
def unsigned : Expression → Expression
  | int n => int (-n)
  | unary .negate operand => operand
  | e => e

mutual

/-- The expression with the sign of a negative literal before every index of it. -/
def hoisted : Expression → Expression
  | index target position =>
    if target.hasNegativeRoot then
      unary .negate (index (hoisted target).unsigned (hoisted position))
    else index (hoisted target) (hoisted position)
  | call function arguments => call function (hoistedAll arguments)
  | binary operator first second => binary operator (hoisted first) (hoisted second)
  | unary operator operand => unary operator (hoisted operand)
  | conditional condition satisfied unsatisfied =>
    conditional (hoisted condition) (hoisted satisfied) (hoisted unsatisfied)
  | guarded condition satisfied => guarded (hoisted condition) (hoisted satisfied)
  | leaf => leaf

/-- Several expressions with the signs of negative literals before every index of them. -/
def hoistedAll : List Expression → List Expression
  | [] => []
  | e :: es => hoisted e :: hoistedAll es

end

variable {e : Expression}

@[simp] theorem hoisted_int (n : Int) : (int n).hoisted = int n := by
  simp [hoisted]

/-- Where the sign is hoisted, what is left after it is a literal or an index. -/
theorem unsigned_hoisted (h : e.hasNegativeRoot = true) :
    (∃ n < 0, e = int n ∧ e.hoisted.unsigned = int (-n)) ∨
      ∃ a b, e.hoisted = unary .negate (index a b) ∧ e.hoisted.unsigned = index a b := by
  cases e with
  | int n => exact .inl ⟨n, of_decide_eq_true h, rfl, by rw [hoisted_int, unsigned]⟩
  | index a b =>
    refine .inr ⟨a.hoisted.unsigned, b.hoisted, ?_⟩
    have ha : a.hasNegativeRoot = true := h
    rw [hoisted, if_pos ha]
    exact ⟨rfl, rfl⟩
  | _ => contradiction

theorem isNegativeLiteral_hoisted (e : Expression) :
    e.hoisted.isNegativeLiteral = e.isNegativeLiteral := by
  cases e with
  | index a b =>
    rw [hoisted]
    split_ifs <;> rfl
  | _ => simp [hoisted, isNegativeLiteral]

/-- Hoisting loosens an index to an operand of a sign, and nothing more. -/
theorem precedence_hoisted (e : Expression) :
    e.hoisted.precedence = e.precedence ∨
      e.hasNegativeRoot = true ∧ e.hoisted.precedence = unaryPrecedence ∧
        e.precedence = atomPrecedence := by
  cases e with
  | index a b =>
    rw [hoisted]
    split_ifs with hroot
    · exact .inr ⟨hroot, rfl, rfl⟩
    · exact .inl rfl
  | _ => simp [hoisted, precedence]

theorem containsOperator_unsigned (op : BinaryOperator) (e : Expression) :
    e.unsigned.containsOperator op = e.containsOperator op := by
  fun_cases unsigned e <;> simp only [containsOperator]

mutual

theorem containsOperator_hoisted (op : BinaryOperator) (e : Expression) :
    e.hoisted.containsOperator op = e.containsOperator op := by
  cases e with
  | index a b =>
    rw [hoisted]
    split_ifs <;> simp only [containsOperator, containsOperator_unsigned,
      containsOperator_hoisted op a, containsOperator_hoisted op b]
  | call f es => simp only [hoisted, containsOperator, anyContainsOperator_hoisted op es]
  | binary op' a b => simp only [hoisted, containsOperator, containsOperator_hoisted op a,
      containsOperator_hoisted op b]
  | unary op' a => simp only [hoisted, containsOperator, containsOperator_hoisted op a]
  | conditional c s u => simp only [hoisted, containsOperator, containsOperator_hoisted op c,
      containsOperator_hoisted op s, containsOperator_hoisted op u]
  | guarded c s => simp only [hoisted, containsOperator, containsOperator_hoisted op c,
      containsOperator_hoisted op s]
  | _ => simp [hoisted]

theorem anyContainsOperator_hoisted (op : BinaryOperator) (es : List Expression) :
    anyContainsOperator op (hoistedAll es) = anyContainsOperator op es := by
  cases es with
  | nil => rfl
  | cons e es => simp only [hoistedAll, anyContainsOperator, containsOperator_hoisted op e,
      anyContainsOperator_hoisted op es]

end

theorem toString_of_neg {n : Int} (hn : n < 0) : toString n = "-" ++ toString (-n) := by
  cases n with
  | ofNat n => exact absurd hn (Int.not_lt.mpr (Int.natCast_nonneg n))
  | negSucc n => rfl

theorem text_unsigned_hoisted (h : e.hasNegativeRoot = true) :
    e.hoisted.text = "-" ++ e.hoisted.unsigned.text := by
  obtain ⟨n, hn, rfl, hu⟩ | ⟨a, b, he, hu⟩ := unsigned_hoisted h
  · rw [hu, hoisted_int, text, text, toString_of_neg hn]
  · rw [hu, he]
    rfl

theorem text_index_of_atom {a : Expression} (ha : a.precedence = atomPrecedence) (b : Expression) :
    (index a b).text = a.text ++ "[" ++ b.text ++ "]" := by
  rw [text, asOperand, ha]
  rfl

theorem text_index_of_hasNegativeRoot {a b : Expression} (h : a.hasNegativeRoot = true)
    (htext : a.hoisted.text = a.text) :
    (unary .negate (index a.hoisted.unsigned b)).text = (index a b).text := by
  have ha : a.precedence = atomPrecedence ∧ a.hoisted.unsigned.precedence = atomPrecedence := by
    obtain ⟨n, -, rfl, hu⟩ | ⟨c, d, he, hu⟩ := unsigned_hoisted h
    · rw [hu]
      exact ⟨rfl, rfl⟩
    · rw [hu]
      refine ⟨?_, rfl⟩
      cases a with
      | index => rfl
      | _ => contradiction
  calc (unary .negate (index a.hoisted.unsigned b)).text
      = "-" ++ (index a.hoisted.unsigned b).text := rfl
    _ = "-" ++ a.hoisted.unsigned.text ++ "[" ++ b.text ++ "]" := by
      rw [text_index_of_atom ha.2]
      simp only [String.append_assoc]
    _ = a.text ++ "[" ++ b.text ++ "]" := by rw [← text_unsigned_hoisted h, htext]
    _ = (index a b).text := (text_index_of_atom ha.1 b).symm

theorem asOperand_hoisted (htext : e.hoisted.text = e.text) (minimum : Nat) (wrapNegative : Bool)
    (h : e.hasNegativeRoot = true → minimum ≤ unaryPrecedence) :
    e.hoisted.asOperand e.hoisted.text minimum wrapNegative =
      e.asOperand e.text minimum wrapNegative := by
  have hlt : e.hoisted.precedence < minimum ↔ e.precedence < minimum := by
    obtain heq | ⟨hroot, hhoisted, hatom⟩ := precedence_hoisted e
    · rw [heq]
    · have := h hroot
      rw [hhoisted, hatom, atomPrecedence]
      omega
  simp only [asOperand, hlt, isNegativeLiteral_hoisted, htext]

theorem asBranch_hoisted (htext : e.hoisted.text = e.text) {minimum : Nat}
    (h : minimum ≤ unaryPrecedence) :
    e.hoisted.asBranch e.hoisted.text minimum = e.asBranch e.text minimum := by
  unfold asBranch
  dsimp only
  rw [asOperand_hoisted htext minimum false fun _ => h]
  cases e with
  | index a b =>
    rw [hoisted]
    by_cases hroot : a.hasNegativeRoot = true
    · rw [if_pos hroot]
      rfl
    · rw [if_neg hroot]
      rfl
  | _ => rw [hoisted] <;> first | rfl | simp

theorem asCondition_hoisted (htext : e.hoisted.text = e.text) :
    e.hoisted.asCondition e.hoisted.text = e.asCondition e.text := by
  unfold asCondition
  dsimp only
  rw [htext, containsOperator_hoisted]
  cases e with
  | index a b =>
    rw [hoisted]
    by_cases hroot : a.hasNegativeRoot = true
    · rw [if_pos hroot]
    · rw [if_neg hroot]
  | _ => simp [hoisted]

mutual

/-- Where the sign of a negative literal stands makes no difference to the text. -/
theorem text_hoisted (e : Expression) : e.hoisted.text = e.text := by
  cases e with
  | index a b =>
    have ha := text_hoisted a
    have hb := text_hoisted b
    rw [hoisted]
    split_ifs with hroot
    · rw [text_index_of_hasNegativeRoot hroot ha, text, text, hb]
    · rw [text, text, hb, asOperand_hoisted ha _ _ fun h => absurd h hroot]
  | call f es => rw [hoisted, text, text, texts_hoisted es]
  | binary op a b =>
    rw [hoisted, text_binary, text_binary,
      asOperand_hoisted (text_hoisted a) _ _ fun _ => Nat.le_of_lt op.precedence_lt_unary,
      asOperand_hoisted (text_hoisted b) _ _ fun _ => op.precedence_lt_unary]
  | unary op a =>
    rw [hoisted, text, text, asOperand_hoisted (text_hoisted a) _ _ fun _ => Nat.le_refl _]
  | conditional c s u =>
    rw [hoisted, text, text, asCondition_hoisted (text_hoisted c),
      asBranch_hoisted (text_hoisted s) (by decide), asBranch_hoisted (text_hoisted u) (by decide)]
  | guarded c s =>
    rw [hoisted, text, text, asCondition_hoisted (text_hoisted c),
      asBranch_hoisted (text_hoisted s) (by decide)]
  | _ => simp [hoisted]

theorem texts_hoisted (es : List Expression) : texts (hoistedAll es) = texts es := by
  cases es with
  | nil => rfl
  | cons e es => rw [hoistedAll, texts, texts, text_hoisted e, texts_hoisted es]

end

/-- Without its sign an expression has no parts that it did not have, apart from a literal. -/
theorem mem_parts_unsigned {d : Expression} (h : d ∈ e.unsigned.parts) :
    d ∈ e.parts ∨ ∃ n, d = int n := by
  revert h
  fun_cases unsigned e with
  | case1 n => exact fun h => .inr ⟨_, List.mem_singleton.mp h⟩
  | case2 a => exact fun h => .inl (.tail _ h)
  | case3 => exact .inl

theorem rooted_unsigned_hoisted {a : Expression} (h : a.hasNegativeRoot = true) (b : Expression) :
    (index a.hoisted.unsigned b).Rooted := by
  obtain ⟨n, hn, -, hu⟩ | ⟨c, d, -, hu⟩ := unsigned_hoisted h
  · rw [hu]
    exact Int.neg_nonneg_of_nonpos (Int.le_of_lt hn)
  · rw [hu]
    trivial

theorem rooted_hoisted_index {a : Expression} (h : ¬ a.hasNegativeRoot = true) (b : Expression) :
    (index a.hoisted b).Rooted := by
  cases a with
  | int n =>
    rw [hoisted_int]
    exact Int.not_lt.mp fun hn => h (decide_eq_true hn)
  | index c d =>
    rw [hoisted]
    split_ifs <;> trivial
  | _ => simp [hoisted, Rooted, Worded, Legible]

mutual

/-- Hoisting leaves no index of a negative literal. -/
theorem rooted_hoisted {e : Expression} (h : ∀ d ∈ e.parts, d.Worded) :
    ∀ d ∈ e.hoisted.parts, d.Rooted := by
  cases e with
  | index a b =>
    simp only [parts, List.forall_mem_cons, List.forall_mem_append] at h
    have ha := rooted_hoisted h.2.1
    have hb := rooted_hoisted h.2.2
    rw [hoisted]
    split_ifs with hroot
    · simp only [parts, List.forall_mem_cons, List.forall_mem_append]
      refine ⟨trivial, rooted_unsigned_hoisted hroot _, fun d hd => ?_, hb⟩
      obtain hd | ⟨n, rfl⟩ := mem_parts_unsigned hd
      · exact ha d hd
      · trivial
    · simp only [parts, List.forall_mem_cons, List.forall_mem_append]
      exact ⟨rooted_hoisted_index hroot _, ha, hb⟩
  | call f es =>
    obtain ⟨hf, hes⟩ := List.forall_mem_cons.mp h
    rw [hoisted]
    exact List.forall_mem_cons.mpr ⟨hf, rooted_hoistedAll hes⟩
  | binary op a b | guarded a b =>
    simp only [parts, List.forall_mem_cons, List.forall_mem_append] at h
    simp only [hoisted, parts, List.forall_mem_cons, List.forall_mem_append]
    exact ⟨trivial, rooted_hoisted h.2.1, rooted_hoisted h.2.2⟩
  | unary op a =>
    simp only [parts, List.forall_mem_cons] at h
    simp only [hoisted, parts, List.forall_mem_cons]
    exact ⟨trivial, rooted_hoisted h.2⟩
  | conditional c s u =>
    simp only [parts, List.forall_mem_cons, List.forall_mem_append] at h
    simp only [hoisted, parts, List.forall_mem_cons, List.forall_mem_append]
    exact ⟨trivial, ⟨rooted_hoisted h.2.1.1, rooted_hoisted h.2.1.2⟩, rooted_hoisted h.2.2⟩
  | _ =>
    rw [hoisted]
    · exact List.forall_mem_singleton.mpr (h _ (.head _))
    all_goals simp

theorem rooted_hoistedAll {es : List Expression} (h : ∀ d ∈ partsOfAll es, d.Worded) :
    ∀ d ∈ partsOfAll (hoistedAll es), d.Rooted := by
  cases es with
  | nil => nofun
  | cons e es =>
    simp only [partsOfAll, hoistedAll, List.forall_mem_append] at h ⊢
    exact ⟨rooted_hoisted h.1, rooted_hoistedAll h.2⟩

end

/-- An expression whose text is read is what is read, with its signs hoisted and settled. -/
theorem eq_settled_hoisted_of_ofText {e t : Expression} (h : ∀ d ∈ e.parts, d.Worded)
    (ht : ofText e.text = .ok t) : t = e.hoisted.settled := by
  rw [← text_hoisted e] at ht
  exact eq_settled_of_ofText (rooted_hoisted h) ht

end Expression
end Hologram.Script
