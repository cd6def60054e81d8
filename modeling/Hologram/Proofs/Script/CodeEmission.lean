import Hologram.Proofs.Script.Emission
import Hologram.Proofs.Script.Instructions

/-! The text of code is read as the code. -/
namespace Hologram.Script
open Lexer

namespace Code

mutual

/-- What the text of an instruction is read as. A branch with nothing in it is not read, and only a
variable can be assigned. -/
def settledInstruction : Instruction Expression → Program
  | .assign (.name x) value => [.assign x value.settled]
  | .assign _ _ => []
  | .eval e => [.eval e.settled]
  | .returns value => [.returns (value.map Expression.settled)]
  | .branch condition satisfied unsatisfied =>
    if satisfied.isEmpty && unsatisfied.isEmpty then []
    else [.branch condition.settled (settled satisfied) (settled unsatisfied)]

/-- What the text of code is read as. -/
def settled : Code → Program
  | [] => []
  | i :: rest => settledInstruction i ++ settled rest

end

mutual

def instructionExpressions : Instruction Expression → List Expression
  | .assign target value => [target, value]
  | .eval e => [e]
  | .returns value => value.toList
  | .branch condition satisfied unsatisfied =>
    condition :: (expressions satisfied ++ expressions unsatisfied)

def expressions : Code → List Expression
  | [] => []
  | i :: rest => instructionExpressions i ++ expressions rest

end

mutual

def instructionTargets : Instruction Expression → List Expression
  | .assign target _ => [target]
  | .branch _ satisfied unsatisfied => targets satisfied ++ targets unsatisfied
  | _ => []

def targets : Code → List Expression
  | [] => []
  | i :: rest => instructionTargets i ++ targets rest

end

end Code

/-- A text is read as some instructions, whatever comes after it. -/
def ReadsAsCode (text : String) (p : Program) : Prop :=
  ∃ ts, (∀ rest, Reads false (text.toList ++ rest) ts rest) ∧
    ∀ us q, Codes us q → Codes (ts ++ us) (p ++ q)

namespace ReadsAsCode

theorem nil : ReadsAsCode "" [] :=
  ⟨[], fun _ => .done, fun _ _ h => h⟩

theorem append {text text' : String} {p p' : Program} (h : ReadsAsCode text p)
    (h' : ReadsAsCode text' p') : ReadsAsCode (text ++ text') (p ++ p') := by
  obtain ⟨ts, hts, hp⟩ := h
  obtain ⟨us, hus, hp'⟩ := h'
  refine ⟨ts ++ us, fun rest => ?_, fun vs q hq => ?_⟩
  · rw [String.toList_append, List.append_assoc]
    exact (hts _).append (hus rest)
  · rw [List.append_assoc, List.append_assoc]
    exact hp _ _ (hp' vs q hq)

/-- Tokens of their own that are read as instructions. -/
theorem codes {text : String} {p : Program} (h : ReadsAsCode text p) :
    ∃ ts, (∀ rest, Reads false (text.toList ++ rest) ts rest) ∧ Codes ts p := by
  obtain ⟨ts, hts, hp⟩ := h
  have hcodes := hp [] [] .nil
  rw [List.append_nil, List.append_nil] at hcodes
  exact ⟨ts, hts, hcodes⟩

theorem reads_semicolon {cs : List Char} {ts : List Token} (hts : Spells cs ts) (rest : List Char) :
    Reads false (cs ++ ';' :: rest) (ts ++ [.semicolon]) rest :=
  (hts _ (.cons (by decide) rest)).append (reads_punctuation rfl .done)

theorem eval {opens : Bool} {text : String} {e : Expression}
    (h : ReadsAs text (.expression opens) e) : ReadsAsCode (text ++ ";") [.eval e] := by
  obtain ⟨ts, hts, he⟩ := h
  refine ⟨ts ++ [.semicolon], fun rest => ?_, fun us q hq => ?_⟩
  · rw [String.toList_append, List.append_assoc]
    exact reads_semicolon hts rest
  · rw [List.append_assoc]
    exact .eval he hq

theorem assign {opens : Bool} {x text : String} {e : Expression} (hx : isName x = true)
    (h : ReadsAs text (.expression opens) e) :
    ReadsAsCode (x ++ "=" ++ text ++ ";") [.assign x e] := by
  obtain ⟨ts, hts, he⟩ := h
  refine ⟨.identifier x :: .assign :: (ts ++ [.semicolon]), fun rest => ?_, fun us q hq => ?_⟩
  · simp only [String.toList_append, List.append_assoc]
    have hvalue := hts (';' :: rest) (.cons (by decide) rest)
    refine (spells_name hx _ (.cons (by decide) _)).append
      (reads_sign (c := '=') rfl (fun _ => ?_) (reads_semicolon hts rest))
    exact (he.endsSigns hvalue).joins_eq_false (by decide)
  · simp only [List.cons_append, List.append_assoc]
    exact .assign he hq

theorem spells_return : Spells "return".toList [.returnWord] :=
  spells_word (c := 'r') (by decide) (by decide) rfl

theorem returns {opens : Bool} {text : String} {e : Expression}
    (h : ReadsAs text (.expression opens) e) :
    ReadsAsCode ("return " ++ text ++ ";") [.returns (some e)] := by
  obtain ⟨ts, hts, he⟩ := h
  refine ⟨.returnWord :: (ts ++ [.semicolon]), fun rest => ?_, fun us q hq => ?_⟩
  · simp only [String.toList_append, List.append_assoc]
    exact (spells_return _ (.cons (by decide) _)).append
      (.blank rfl (reads_semicolon hts rest))
  · simp only [List.cons_append, List.append_assoc]
    exact .returns he hq

theorem returnsNothing : ReadsAsCode "return;" [.returns none] :=
  ⟨[.returnWord, .semicolon], fun rest => reads_semicolon spells_return rest,
    fun _ _ h => .returnsNothing h⟩

/-- A block in braces is read between its braces. -/
theorem reads_block {cs after rest : List Char} {ts us : List Token}
    (hts : ∀ rest, Reads false (cs ++ rest) ts rest) (h : Reads false after us rest) :
    Reads false ('\x7b' :: (cs ++ '\x7d' :: after)) (.leftBrace :: (ts ++ .rightBrace :: us))
      rest :=
  reads_punctuation rfl ((hts _).append (reads_punctuation rfl h))

/-- The question mark of a branch is read before the brace of its block. -/
theorem reads_branch {cs after rest : List Char} {ts us : List Token} (hts : Spells cs ts)
    (h : Reads false ('\x7b' :: after) us rest) :
    Reads false (cs ++ '?' :: '\x7b' :: after) (ts ++ .question :: us) rest := by
  refine (hts _ (.cons (by decide) _)).append (reads_sign (c := '?') rfl (fun d hd => ?_) h)
  cases hd
  rfl

theorem branch {text text' text'' : String} {c : Expression} {s u : Program}
    (hc : ReadsAs text (.binary 1) c) (hs : ReadsAsCode text' s) (hu : ReadsAsCode text'' u) :
    ReadsAsCode (text ++ "?\x7b" ++ text' ++ "\x7d" ++ (":\x7b" ++ text'' ++ "\x7d") ++ ";")
      [.branch c s u] := by
  obtain ⟨ts, hts, hc⟩ := hc
  obtain ⟨us, hus, hs⟩ := hs.codes
  obtain ⟨vs, hvs, hu⟩ := hu.codes
  refine ⟨ts ++ .question :: .leftBrace :: (us ++ .rightBrace :: .colon :: .leftBrace ::
    (vs ++ .rightBrace :: [.semicolon])), fun rest => ?_, fun ws q hq => ?_⟩
  · simp only [String.toList_append, List.append_assoc]
    have hsemicolon : Reads false (';' :: rest) [.semicolon] rest := reads_punctuation rfl .done
    have hunsatisfied := reads_block hvs hsemicolon
    exact reads_branch hts (reads_block hus (reads_punctuation (c := ':') rfl hunsatisfied))
  · simp only [List.append_assoc, List.cons_append]
    exact .branch hc hs hu hq

theorem guarded {text text' : String} {c : Expression} {s : Program}
    (hc : ReadsAs text (.binary 1) c) (hs : ReadsAsCode text' s) :
    ReadsAsCode (text ++ "?\x7b" ++ text' ++ "\x7d" ++ "" ++ ";") [.branch c s []] := by
  obtain ⟨ts, hts, hc⟩ := hc
  obtain ⟨us, hus, hs⟩ := hs.codes
  refine ⟨ts ++ .question :: .leftBrace :: (us ++ .rightBrace :: [.semicolon]), fun rest => ?_,
    fun ws q hq => ?_⟩
  · simp only [String.toList_append, List.append_assoc]
    exact reads_branch hts (reads_block hus (reads_punctuation rfl .done))
  · simp only [List.append_assoc, List.cons_append]
    exact .guarded hc hs hq

end ReadsAsCode

namespace Code
open Expression

mutual

/-- Whether an instruction is read from its text: it assigns to nothing but variables, and its
expressions are read where they stand. -/
def ReadableInstruction : Instruction Expression → Prop
  | .assign target value => (∃ x, target = .name x ∧ isName x = true) ∧ value.ReadsBack
  | .eval e => e.ReadsBack
  | .returns value => ∀ e ∈ value, e.ReadsBack
  | .branch condition satisfied unsatisfied =>
    ReadsAs (condition.asCondition condition.text) (.binary 1) condition.settled ∧
      Readable satisfied ∧ Readable unsatisfied

/-- Whether code is read from its text. -/
def Readable : Code → Prop
  | [] => True
  | i :: rest => ReadableInstruction i ∧ Readable rest

end

mutual

/-- The text of readable code is read as the code, whatever comes after it. -/
theorem readsAsCode_of_readable {code : Code} (h : code.Readable) :
    ReadsAsCode (String.join (texts code)) code.settled := by
  cases code with
  | nil => exact .nil
  | cons i rest =>
    rw [texts, String.join_cons, settled]
    exact (readsAsCode_of_readableInstruction h.1).append (readsAsCode_of_readable h.2)

theorem readsAsCode_of_readableInstruction {i : Instruction Expression}
    (h : ReadableInstruction i) : ReadsAsCode (instructionText i) (settledInstruction i) := by
  cases i with
  | assign target value =>
    obtain ⟨⟨x, rfl, hx⟩, hvalue⟩ := h
    exact .assign hx hvalue.expression
  | eval e => exact .eval (ReadsBack.expression h)
  | returns value =>
    cases value with
    | none => exact .returnsNothing
    | some e => exact .returns (h e rfl).expression
  | branch c s u =>
    obtain ⟨hcondition, hs, hu⟩ := h
    have hsatisfied := readsAsCode_of_readable hs
    rw [instructionText, settledInstruction]
    split_ifs with hempty hunsatisfied
    · exact .nil
    · obtain rfl := List.isEmpty_iff.mp hunsatisfied
      exact .guarded hcondition hsatisfied
    · exact .branch hcondition hsatisfied (readsAsCode_of_readable hu)

end

/-- The text of readable code is accepted, and read as the code with its code and its signs
settled. -/
theorem ofText_text_of_readable {code : Code} (h : code.Readable) :
    Program.ofText code.text = .ok code.settled := by
  obtain ⟨ts, hts, hcodes⟩ := (readsAsCode_of_readable h).codes
  have hreads := hts []
  rw [List.append_nil] at hreads
  exact Program.ofText_of_codes hreads.allow hcodes

mutual

/-- Legible code with its signs apart, in which only variables are assigned, is readable. -/
theorem readable_of_legible {code : Code} (htargets : ∀ t ∈ code.targets, ∃ x, t = .name x)
    (h : ∀ e ∈ code.expressions, ∀ d ∈ e.parts, d.Legible ∧ d.signsApart = true) :
    code.Readable := by
  cases code with
  | nil => trivial
  | cons i rest =>
    simp only [targets, expressions, List.forall_mem_append] at htargets h
    exact ⟨readableInstruction_of_legible htargets.1 h.1, readable_of_legible htargets.2 h.2⟩

theorem readableInstruction_of_legible {i : Instruction Expression}
    (htargets : ∀ t ∈ instructionTargets i, ∃ x, t = .name x)
    (h : ∀ e ∈ instructionExpressions i, ∀ d ∈ e.parts, d.Legible ∧ d.signsApart = true) :
    ReadableInstruction i := by
  cases i with
  | assign target value =>
    obtain ⟨x, rfl⟩ := htargets target (.head _)
    simp only [instructionExpressions, List.forall_mem_cons] at h
    have hx : isName x = true := (h.1 (.name x) (.head _)).1
    exact ⟨⟨x, rfl, hx⟩, readsBack h.2.1⟩
  | eval e => exact readsBack (h e (.head _))
  | returns value =>
    intro e he
    exact readsBack (h e (Option.mem_toList.mpr he))
  | branch c s u =>
    simp only [instructionTargets, instructionExpressions, List.forall_mem_cons,
      List.forall_mem_append] at htargets h
    obtain ⟨hc, hs, hu⟩ := h
    exact ⟨(readsBack hc).asCondition (legible_self hc).1, readable_of_legible htargets.1 hs,
      readable_of_legible htargets.2 hu⟩

end

/-- Legible code with its signs apart, in which only variables are assigned, is read from its
text. -/
theorem readsAsCode {code : Code} (htargets : ∀ t ∈ code.targets, ∃ x, t = .name x)
    (h : ∀ e ∈ code.expressions, ∀ d ∈ e.parts, d.Legible ∧ d.signsApart = true) :
    ReadsAsCode (String.join (texts code)) code.settled :=
  readsAsCode_of_readable (readable_of_legible htargets h)

/-- The text of such code is accepted, and read as the code with its code and its signs settled. -/
theorem program_ofText_text {code : Code} (htargets : ∀ t ∈ code.targets, ∃ x, t = .name x)
    (h : ∀ e ∈ code.expressions, ∀ d ∈ e.parts, d.Legible ∧ d.signsApart = true) :
    Program.ofText code.text = .ok code.settled := by
  obtain ⟨ts, hts, hcodes⟩ := (readsAsCode htargets h).codes
  have hreads := hts []
  rw [List.append_nil] at hreads
  exact Program.ofText_of_codes hreads.allow hcodes

theorem program_ofText_text_spliced : ∃ code : Code,
    code.text = "x=(1+2)*-3;x?\x7breturn;\x7d;" ∧
      (∀ t ∈ code.targets, ∃ x, t = .name x) ∧
      (∀ e ∈ code.expressions, ∀ d ∈ e.parts, d.Legible ∧ d.signsApart = true) ∧
      Program.ofText code.text = .ok [
        .assign "x" (.binary .multiply (.binary .add (.int 1) (.int 2)) (.int (-3))),
        .branch (.name "x") [.returns none] []] := by
  have hreads : Reads false "1+2".toList [.int 1, .operator .add, .int 2] [] :=
    .token rfl (.token rfl (.token rfl .done))
  have hsum : Derives (.binary 1) ([.int 1] ++ [.operator .add, .int 2])
      (.binary .add (.int 1) (.int 2)) :=
    .operator (by decide) (.operand (.unary (.postfixed (.int 1))))
      (.operand (.unary (.postfixed (.int 2))))
  have hread : ofText "1+2" = .ok (.binary .add (.int 1) (.int 2)) :=
    ofText_eq_ok_iff.mpr ⟨true, _, hreads.allow, .condition hsum⟩
  let code : Code := [.assign (.name "x") (.binary .multiply (.raw "1+2") (.int (-3))),
    .branch (.name "x") [] [], .branch (.name "x") [.returns none] []]
  have htargets : ∀ t ∈ code.targets, ∃ x, t = .name x :=
    List.forall_mem_singleton.mpr ⟨"x", rfl⟩
  have hlegible : ∀ e ∈ code.expressions, ∀ d ∈ e.parts, d.Legible ∧ d.signsApart = true := by
    have hname : (name "x").Legible := show isName "x" = true by decide
    have hspliced : (raw "1+2").Legible := ⟨⟨_, hread⟩, by decide, _, hreads⟩
    have hsigned : (int (-3)).Legible := ⟨by decide, by decide⟩
    have hproduct : (binary .multiply (raw "1+2") (int (-3))).Legible := trivial
    simp [code, expressions, instructionExpressions, parts, signsApart, hname, hspliced, hsigned,
      hproduct]
  have hsettled : code.settled = [
      .assign "x" (.binary .multiply (.binary .add (.int 1) (.int 2)) (.int (-3))),
      .branch (.name "x") [.returns none] []] := by
    simp [code, settled, settledInstruction, Expression.settled, hread]
  refine ⟨code, ?_, htargets, hlegible, hsettled ▸ program_ofText_text htargets hlegible⟩
  decide

/-- A minus sign before code that spells a fraction becomes part of the fraction. -/
theorem program_ofText_text_fraction :
    ∃ x, ofText "1.5" = .ok (.float x) ∧
      ∃ code : Code, code = [.eval (.unary .negate (.raw "1.5"))] ∧
        (∀ t ∈ code.targets, ∃ x, t = .name x) ∧
        (∀ e ∈ code.expressions, ∀ d ∈ e.parts, d.Legible ∧ d.signsApart = true) ∧
        Program.ofText code.text ≠ .ok [.eval (.unary .negate (.float x))] := by
  obtain ⟨x, hreads, hreads'⟩ : ∃ x, Reads false "1.5".toList [.float x] [] ∧
      Reads false "-1.5;".toList [.operator .subtract, .float x, .semicolon] [] :=
    ⟨_, .token rfl .done, .token rfl (.token rfl (.token rfl .done))⟩
  have hfraction : Derives .unary [.float x] (.float x) := .unary (.postfixed (.float x))
  have hread : ofText "1.5" = .ok (.float x) :=
    ofText_eq_ok_iff.mpr ⟨true, _, hreads.allow, .condition (.operand hfraction)⟩
  have hcodes : Codes ([.operator .subtract, .float x] ++ [.semicolon]) [.eval (.float (-x))] :=
    .eval (.condition (.operand (.negate hfraction)) : Derives (.expression true) _ _) .nil
  have hprogram : Program.ofText "-1.5;" = .ok [.eval (.float (-x))] :=
    Program.ofText_of_codes hreads'.allow hcodes
  refine ⟨x, hread, _, rfl, nofun, ?_, ?_⟩
  · rintro e (_ | ⟨_, ⟨⟩⟩) d (_ | ⟨_, _ | ⟨_, ⟨⟩⟩⟩)
    · exact ⟨trivial, by decide⟩
    · exact ⟨⟨⟨_, hread⟩, by decide, _, hreads⟩, rfl⟩
  · rw [show text _ = "-1.5;" by decide, hprogram]
    nofun

end Code
end Hologram.Script
