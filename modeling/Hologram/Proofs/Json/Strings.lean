import Hologram.Json
import Mathlib.Tactic.SplitIfs

/-! The text of a string tells the string, whatever text comes after it. -/
namespace Hologram.Json

/-- The number that two hexadecimal digits spell, if it is less than 32. -/
def controlCode? (high low : Char) : Option Nat :=
  (List.range 32).find? fun n => hexDigit (n / 16) == high && hexDigit n == low

/-- The first character that a text inside a JSON string stands for, and the text after it. -/
def unescaped? : List Char → Option (Char × List Char)
  | '\\' :: '"' :: rest => some ('"', rest)
  | '\\' :: '\\' :: rest => some ('\\', rest)
  | '\\' :: 'b' :: rest => some ('\x08', rest)
  | '\\' :: 'f' :: rest => some ('\x0c', rest)
  | '\\' :: 'n' :: rest => some ('\n', rest)
  | '\\' :: 'r' :: rest => some ('\r', rest)
  | '\\' :: 't' :: rest => some ('\t', rest)
  | '\\' :: 'u' :: '0' :: '0' :: high :: low :: rest =>
    (controlCode? high low).map fun n => (Char.ofNat n, rest)
  | c :: rest => some (c, rest)
  | [] => none

theorem controlCode?_hexDigit {n : Nat} (h : n < 32) :
    controlCode? (hexDigit (n / 16)) (hexDigit n) = some n := by
  have hall : ∀ n < 32, controlCode? (hexDigit (n / 16)) (hexDigit n) = some n := by decide
  exact hall n h

/-- An escaped character is read as the character. -/
theorem unescaped?_escapedChar (c : Char) (rest : List Char) :
    unescaped? (escapedChar c ++ rest) = some (c, rest) := by
  unfold escapedChar
  split
  case h_8 hquote hbackslash _ _ _ _ _ =>
    split_ifs with hcontrol
    · simp only [List.cons_append, List.nil_append, unescaped?, controlCode?_hexDigit hcontrol]
      simp
    · rw [List.singleton_append]
      unfold unescaped?
      split
      case h_9 heq =>
        obtain ⟨rfl, rfl⟩ := List.cons.inj heq
        rfl
      case h_10 heq => contradiction
      all_goals exact absurd (List.cons.inj ‹_›).1 hbackslash
  all_goals rfl

/-- No escaped character begins with a quotation mark. -/
theorem escapedChar_ne_quote (c : Char) (x y : List Char) : escapedChar c ++ x ≠ '"' :: y := by
  intro h
  have hread := congrArg unescaped? h
  rw [unescaped?_escapedChar] at hread
  obtain ⟨rfl, -⟩ := Prod.mk.inj (Option.some.inj hread)
  have hhead := (List.cons.inj h).1
  contradiction

theorem flatMap_escapedChar_inj {a b x y : List Char}
    (h : a.flatMap escapedChar ++ '"' :: x = b.flatMap escapedChar ++ '"' :: y) :
    a = b ∧ x = y := by
  induction a generalizing b with
  | nil =>
    cases b with
    | nil => exact ⟨rfl, List.tail_eq_of_cons_eq h⟩
    | cons d b =>
      rw [List.flatMap_cons, List.append_assoc] at h
      exact absurd h.symm (escapedChar_ne_quote d _ _)
  | cons c a ih =>
    cases b with
    | nil =>
      rw [List.flatMap_cons, List.append_assoc] at h
      exact absurd h (escapedChar_ne_quote c _ _)
    | cons d b =>
      rw [List.flatMap_cons, List.flatMap_cons, List.append_assoc, List.append_assoc] at h
      have hread := congrArg unescaped? h
      rw [unescaped?_escapedChar, unescaped?_escapedChar] at hread
      obtain ⟨rfl, hrest⟩ := Prod.mk.inj (Option.some.inj hread)
      obtain ⟨rfl, hxy⟩ := ih hrest
      exact ⟨rfl, hxy⟩

/-- A text that begins with the text of a string begins with that of no other string. -/
theorem stringText_inj {a b : String} {x y : List Char}
    (h : (stringText a).toList ++ x = (stringText b).toList ++ y) : a = b ∧ x = y := by
  simp only [stringText, String.toList_append, String.toList_ofList, List.append_assoc] at h
  obtain ⟨hab, hxy⟩ := flatMap_escapedChar_inj (List.append_cancel_left h)
  exact ⟨String.toList_inj.mp hab, hxy⟩

theorem stringText_injective : Function.Injective stringText := by
  intro a b h
  exact (stringText_inj (congrArg (String.toList · ++ []) h)).1

end Hologram.Json
