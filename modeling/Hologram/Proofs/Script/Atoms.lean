import Mathlib
import Hologram.Proofs.Script.Emission

/-! Code beside an operator. An atom keeps its tree next to any operator, on either side and without
parentheses, as long as its comments and strings hide no parenthesis and no quote. -/
namespace Hologram.Script

namespace Atomic
open Lexer

/-- An atom begins with a blank, a name, a number or a parenthesis. -/
theorem exists_cons_of_holds {text : String} (h : holds text = true) :
    ∃ c cs, text.toList = c :: cs ∧ (Text.isBlank c || isWordChar c || c == '(') = true := by
  obtain ⟨lead, trail, htext, hlead, -⟩ := exists_trim text.toList
  cases lead with
  | cons c lead => exact ⟨c, _, htext, by simp [hlead c (.head _)]⟩
  | nil =>
    unfold holds at h
    dsimp only at h
    generalize Text.trim text.toList = core at h htext
    cases core with
    | nil => exact absurd h Bool.false_ne_true
    | cons c core =>
      refine ⟨c, core ++ trail, htext, ?_⟩
      by_cases hc : isWordChar c = true
      · simp [hc]
      · rw [List.dropWhile_cons_of_neg hc] at h
        split at h
        · exact absurd ‹c :: core = []› (List.cons_ne_nil c core)
        · rename_i hopen
          cases hopen
          simp
        · exact absurd h Bool.false_ne_true

/-- Before a character of a kind that goes on with no sign, every sign ends. -/
theorem endsSigns_of_kind {p : Char → Bool} {c : Char} (hc : p c = true)
    (hp : ('-' :: joined).any p = false) (cs : List Char) :
    EndsSigns (c :: cs) ∧ (c :: cs).head? ≠ some '-' := by
  have hmem : c ∉ '-' :: joined := fun hmem => List.any_eq_false.mp hp c hmem hc
  refine ⟨.of_not_mem (fun hjoined => hmem (.tail _ hjoined)) cs, ?_⟩
  rintro ⟨⟩
  exact hmem (.head _)

theorem endsSigns_of_holds {text : String} (h : holds text = true) :
    EndsSigns text.toList ∧ text.toList.head? ≠ some '-' := by
  obtain ⟨c, cs, htext, hc⟩ := exists_cons_of_holds h
  rw [htext]
  exact endsSigns_of_kind (p := fun c => Text.isBlank c || isWordChar c || c == '(') hc (by decide)
    cs

theorem endsSigns_of_isName {x : String} (h : isName x = true) :
    EndsSigns x.toList ∧ x.toList.head? ≠ some '-' := by
  unfold isName at h
  split at h
  · rename_i c cs hx
    simp only [Bool.and_eq_true] at h
    rw [hx]
    exact endsSigns_of_kind h.1.1 (by decide) cs
  · contradiction

end Atomic

namespace Expression
open Lexer

/-- An atom that is accepted on its own is the operand of any operator beside it, with the tree that
it has on its own. -/
theorem ofText_beside_atom {text : String} {e : Expression} (h : ofText text = .ok e)
    (hatom : Atomic.holds text = true)
    (hhidden : ∀ c ∈ hidden text.toList, c ∉ "'()".toList) (op : BinaryOperator) {x : String}
    (hx : isName x = true) :
    ofText (x ++ op.symbol ++ text) = .ok (.binary op (.name x) e) ∧
      ofText (text ++ op.symbol ++ x) = .ok (.binary op e (.name x)) := by
  obtain ⟨opens, ts, hts, he⟩ := ofText_eq_ok_iff.mp h
  obtain ⟨hmore, hsplits⟩ := Atomic.solid_of_holds hatom hhidden hts
  have hatomic (k : Nat) : Derives (.binary k) ts e :=
    .operand (.unary (.postfixed (he.primary_of_not_splits rfl hsplits)))
  have hname (k : Nat) : Derives (.binary k) [.identifier x] (.name x) :=
    .operand (.unary (.postfixed (.name x)))
  have hjoined {us vs : List Token} {a b : Expression} (ha : ∀ k, Derives (.binary k) us a)
      (hb : ∀ k, Derives (.binary k) vs b) :
      Derives (.expression false) (us ++ .operator op :: vs) (.binary op a b) :=
    .condition (.operator op.one_le_precedence (ha _) (hb _))
  have hlast : Reads true x.toList [.identifier x] [] := by
    simpa using (spells_name hx [] separate_nil).allow
  constructor
  · refine ofText_eq_ok_iff.mpr ⟨false, _, ?_, hjoined hname hatomic⟩
    rw [String.toList_append, String.toList_append, List.append_assoc]
    obtain ⟨hends, hhead⟩ := Atomic.endsSigns_of_holds hatom
    have hop := reads_operator op hends (fun _ => hhead) .done
    exact ((spells_name hx _ (separate_symbol op _)).allow).append (hop.allow.append hts)
  · refine ofText_eq_ok_iff.mpr ⟨false, _, ?_, hjoined hatomic hname⟩
    rw [String.toList_append, String.toList_append, List.append_assoc]
    obtain ⟨hends, hhead⟩ := Atomic.endsSigns_of_isName hx
    have hop := reads_operator op hends (fun _ => hhead) .done
    exact (hmore _ (separate_symbol op _)).append (hop.allow.append hlast)

set_option maxRecDepth 20000 in
/-- An atom may hold strings, comments and groups. -/
theorem ofText_beside_atom_call :
    let text := " f('(',\"a\",(b)/*c*/)"
    let call : Expression := .call "f" [.string "(", .string "a", .name "b"]
    ofText text = .ok call ∧ Atomic.holds text = true ∧
      (∀ c ∈ hidden text.toList, c ∉ "'()".toList) ∧ isName "x" = true ∧
      ofText ("x" ++ "-" ++ text) = .ok (.binary .subtract (.name "x") call) ∧
      ofText (text ++ "-" ++ "x") = .ok (.binary .subtract call (.name "x")) := by
  intro text call
  have h : ofText text = .ok call := by cbv
  have hatom : Atomic.holds text = true := by decide
  have hhidden : ∀ c ∈ hidden text.toList, c ∉ "'()".toList := by
    have heq : hidden text.toList = "a\"*c*/".toList := by cbv
    have hall : ("a\"*c*/".toList.all fun c => decide (c ∉ "'()".toList)) = true := by decide
    rw [heq]
    exact fun c hc => of_decide_eq_true (List.all_eq_true.mp hall c hc)
  have hx : isName "x" = true := by decide
  exact ⟨h, hatom, hhidden, hx, ofText_beside_atom h hatom hhidden .subtract hx⟩

set_option maxRecDepth 20000 in
/-- A parenthesis in double quotes makes a sum pass for an atom. -/
theorem atom_not_always_whole :
    ¬ ∀ (text : String) (e : Expression), ofText text = .ok e → Atomic.holds text = true →
      ∀ (op : BinaryOperator) (x : String), isName x = true →
        ofText (x ++ op.symbol ++ text) = .ok (.binary op (.name x) e) ∧
          ofText (text ++ op.symbol ++ x) = .ok (.binary op e (.name x)) := by
  intro h
  let f : Expression := .call "f" [.string "("]
  let g : Expression := .call "g" [.string ")"]
  have hsum : ofText "f(\"(\")+g(\")\")" = .ok (.binary .add f g) := by cbv
  have hsplit : ofText ("x" ++ "*" ++ "f(\"(\")+g(\")\")") =
      .ok (.binary .add (.binary .multiply (.name "x") f) g) := by cbv
  have hwhole := (h _ _ hsum (by decide) .multiply "x" (by decide)).1
  rw [show BinaryOperator.multiply.symbol = "*" from rfl, hsplit] at hwhole
  cases hwhole

end Expression
end Hologram.Script
