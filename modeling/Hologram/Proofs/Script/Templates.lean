import Hologram.Proofs.Script.Assignments
import Hologram.Proofs.Script.Lines

/-! Tokens with placeholders, together with what they are compiled to. Each rule of the grammar that
a template uses is paired with the code that it leaves once the placeholders have their values. -/
namespace Hologram.Script

/-- The text of lines, each of which is ended. -/
def ofLines (lines : List String) : String :=
  String.join (lines.map (· ++ "\n"))

namespace Lexer

def tokens? (cs : List Char) : Option (List Token) :=
  (scan 0 [] cs).toOption.map fun lexemes => lexemes.map (·.token)

theorem reads_of_tokens? {cs : List Char} {ts : List Token} (h : tokens? cs = some ts) :
    Reads true cs ts [] := by
  obtain ⟨lexemes, hscan, rfl⟩ := Option.map_eq_some_iff.mp h
  obtain ⟨more, rfl, hmore⟩ := reads_of_scan (toOption_eq_some_iff.mp hscan)
  exact hmore

/-- Behind a line break reading goes on with what was read before it. -/
theorem reads_line {cs ds : List Char} {ts us : List Token} (h : Reads true cs ts [])
    (h' : Reads true ds us []) : Reads true (cs ++ '\n' :: ds) (ts ++ us) [] := by
  obtain ⟨first, hfirst, rfl⟩ := scan_of_reads h 0 []
  obtain ⟨second, hsecond, rfl⟩ := scan_of_reads h' (0 + cs.length + 1) first.reverse
  obtain ⟨lexemes, hlexemes, hread⟩ := reads_of_scan ((scan_line hfirst ds).trans hsecond)
  have heq : first ++ second = lexemes := by simpa using hlexemes
  rwa [← heq, List.map_append] at hread

end Lexer

/-- A text of lines has the tokens of its lines. -/
theorem tokensOf_ofLines {lines : List String} {ts : List Token}
    (h : ((lines.map String.toList).mapM Lexer.tokens?).map List.flatten = some ts) :
    tokensOf (ofLines lines) = .ok ts := by
  rw [tokensOf_eq_ok_iff]
  obtain ⟨tss, htss, rfl⟩ := Option.map_eq_some_iff.mp h
  clear h
  induction lines generalizing tss with
  | nil =>
    cases htss
    exact .done
  | cons line rest ih =>
    rw [List.map_cons, List.mapM_cons] at htss
    obtain ⟨ts, hts, hrest⟩ := Option.bind_eq_some_iff.mp htss
    obtain ⟨uss, huss, hcons⟩ := Option.bind_eq_some_iff.mp hrest
    cases hcons
    have htext : (ofLines (line :: rest)).toList =
        line.toList ++ '\n' :: (ofLines rest).toList := by
      simp [ofLines]
    rw [htext, List.flatten_cons]
    exact Lexer.reads_line (Lexer.reads_of_tokens? hts) (ih uss huss)

variable {bindings : Bindings}

/-- The tokens spell an expression that comes to `e` when its placeholders have their values. -/
def ResolvesTo (bindings : Bindings) (level : Level) (ts : List Token) (e : Expression) : Prop :=
  ∃ written, Derives level ts written ∧ written.resolve bindings [] = .ok e

namespace ResolvesTo

variable {level : Level} {ts us vs : List Token} {a b c e : Expression}

theorem int (n : Int) : ResolvesTo bindings .primary [.int n] (.int n) :=
  ⟨_, .int n, rfl⟩

theorem name (x : String) : ResolvesTo bindings .primary [.identifier x] (.name x) :=
  ⟨_, .name x, rfl⟩

section

variable {text x : String} {before accessor : Option Accessor} {base value : Constant}

/-- A placeholder whose value has no parts comes to it. -/
theorem placeholder (htext : Parser.placeholderName text = (x, before))
    (hp : Position before us accessor) (hbase : bindings.get? x = some base)
    (hvalue : accessor.elim (.ok base) (Placeholder.access bindings [] x base) = .ok value)
    (hscalar : value.isScalar = true) :
    ResolvesTo bindings .primary (Placeholder.yield ⟨x, accessor, none⟩) value.toExpression := by
  refine ⟨_, Placeholder.derives htext hp .missing, ?_⟩
  rw [Expression.resolve, Placeholder.resolve]
  simp only [Placeholder.base?, Scope.get?, List.lookup_nil, hbase, ok_bind]
  cases accessor with
  | none =>
    cases hvalue
    exact if_pos hscalar
  | some accessor =>
    change (Placeholder.access bindings [] x base accessor >>= fun value => _) = _
    rw [show Placeholder.access bindings [] x base accessor = .ok value from hvalue, ok_bind]
    exact if_pos hscalar

/-- A placeholder that names a binding. -/
theorem binding (hx : Parser.placeholderName x = (x, none))
    (hvalue : bindings.get? x = some value) (hscalar : value.isScalar = true) :
    ResolvesTo bindings .primary (Placeholder.yield ⟨x, none, none⟩) value.toExpression :=
  placeholder hx (.missing none) hvalue rfl hscalar

/-- A placeholder for a number in a sequence. -/
theorem entry {items : List Constant} {n : Nat} (hx : Parser.placeholderName x = (x, none))
    (hitems : bindings.get? x = some (.sequence items)) (hvalue : items[n]? = some value)
    (hscalar : value.isScalar = true) :
    ResolvesTo bindings .primary (Placeholder.yield ⟨x, some (.index n), none⟩)
      value.toExpression := by
  have hitem : Constant.item x (.sequence items) n = .ok value := by
    simp [Constant.item, hvalue]
  exact placeholder hx (.index n) hitems hitem hscalar

/-- A placeholder for a field of a mapping. -/
theorem field {key : String} {fields : List (String × Constant)}
    (hx : Parser.placeholderName (x ++ "." ++ key) = (x, some (.field key)))
    (hfields : bindings.get? x = some (.mapping fields))
    (hvalue : Dictionary.get? fields key = some value) (hscalar : value.isScalar = true) :
    ResolvesTo bindings .primary (Placeholder.yield ⟨x, some (.field key), none⟩)
      value.toExpression := by
  have hfield : Constant.field x (.mapping fields) key = .ok value := by
    simp only [Constant.field, hvalue]
  exact placeholder hx (.missing _) hfields hfield hscalar

end

theorem unary (h : ResolvesTo bindings .primary ts e) : ResolvesTo bindings .unary ts e :=
  let ⟨_, hts, he⟩ := h
  ⟨_, .unary (.postfixed hts), he⟩

theorem condition (h : ResolvesTo bindings (.binary 1) ts e) :
    ResolvesTo bindings (.expression false) ts e :=
  let ⟨_, hts, he⟩ := h
  ⟨_, .condition hts, he⟩

theorem whole (h : ResolvesTo bindings .unary ts e) :
    ResolvesTo bindings (.expression false) ts e :=
  let ⟨_, hts, he⟩ := h
  ⟨_, .condition (.operand hts), he⟩

theorem negative (n : Int) :
    ResolvesTo bindings .unary [.operator .subtract, .int n] (.int (-n)) :=
  ⟨_, .negate (.unary (.postfixed (.int n))), rfl⟩

theorem not (h : ResolvesTo bindings .unary ts e) :
    ResolvesTo bindings .unary (.bang :: ts) (.unary .not e) := by
  obtain ⟨_, hts, he⟩ := h
  refine ⟨_, .not hts, ?_⟩
  rw [Expression.resolve, he]
  rfl

theorem binary (op : BinaryOperator) (ha : ResolvesTo bindings .unary ts a)
    (hb : ResolvesTo bindings .unary us b) :
    ResolvesTo bindings (.binary 1) (ts ++ .operator op :: us) (.binary op a b) := by
  obtain ⟨_, hts, ha⟩ := ha
  obtain ⟨_, hus, hb⟩ := hb
  refine ⟨_, .operator op.one_le_precedence (.operand hts) (.operand hus), ?_⟩
  rw [Expression.resolve, ha, hb]
  rfl

theorem conditional (hc : ResolvesTo bindings (.binary 1) ts c)
    (ha : ResolvesTo bindings (.expression false) us a)
    (hb : ResolvesTo bindings (.expression false) vs b) :
    ResolvesTo bindings (.expression false) (ts ++ .question :: (us ++ .colon :: vs))
      (.conditional c a b) := by
  obtain ⟨_, hts, hc⟩ := hc
  obtain ⟨_, hus, ha⟩ := ha
  obtain ⟨_, hvs, hb⟩ := hb
  refine ⟨_, .conditional hts hus hvs, ?_⟩
  rw [Expression.resolve, hc, ha, hb]
  rfl

/-- A call with two arguments. -/
theorem call (f : String) (ha : ResolvesTo bindings (.expression false) ts a)
    (hb : ResolvesTo bindings (.expression false) us b) :
    ResolvesTo bindings .primary
      (.identifier f :: .leftParen :: (ts ++ .comma :: (us ++ [.rightParen])))
      (.call f [a, b]) := by
  obtain ⟨x, hts, ha⟩ := ha
  obtain ⟨y, hus, hb⟩ := hb
  have hspelled : Derives .primary _ (.call f [x, y]) :=
    .closeFilled (.argument (.comma (.argument (.call f) hts)) hus)
  simp only [List.cons_append, List.nil_append, List.append_assoc] at hspelled
  refine ⟨_, hspelled, ?_⟩
  simp only [Expression.resolve, Expression.resolveAll, ha, hb]
  rfl

end ResolvesTo

/-- The tokens spell statements that are unrolled to `code`. -/
def UnrollsTo (bindings : Bindings) (part : Part) (next : Option Token) (ts : List Token)
    (code : Code) : Prop :=
  ∃ p, Forms part next ts p ∧ Procedure.unrollBlock bindings [] p = pure code

theorem Procedure.unrollBlock_append (scope : Scope) (p q : Procedure) :
    unrollBlock bindings scope (p ++ q) = do
      let code ← unrollBlock bindings scope p
      let further ← unrollBlock bindings scope q
      return code ++ further := by
  induction p with
  | nil => simp [unrollBlock]
  | cons s rest ih =>
    simp only [List.cons_append, unrollBlock, ih, bind_assoc, pure_bind, List.append_assoc]

theorem Procedure.unrollBlock_singleton {scope : Scope} {s : Statement} {code : Code}
    (h : unrollStatement bindings scope s = pure code) :
    unrollBlock bindings scope [s] = pure code := by
  simp [unrollBlock, h]

namespace UnrollsTo

variable {next : Option Token} {ts us vs : List Token} {x : String}
  {e c : Expression} {code first second : Code}

/-- A variable is given a value. -/
theorem assign (x : String) (h : ResolvesTo bindings (.expression false) ts e) :
    UnrollsTo bindings .statement next (.identifier x :: .assign :: (ts ++ [.semicolon]))
      [.assign (.name x) e] := by
  obtain ⟨_, hts, he⟩ := h
  have hname : Derives (.expression false) [.identifier x] (.name x) := .of_primary (.name x)
  refine ⟨_, .ended (.assign .plain hname rfl hts), Procedure.unrollBlock_singleton ?_⟩
  rw [Procedure.unrollStatement, Expression.resolve, he]
  rfl

/-- A variable is changed by a number. -/
theorem combined (op : BinaryOperator) (x : String) (n : Int) :
    UnrollsTo bindings .statement next [.identifier x, .compoundAssign op, .int n, .semicolon]
      [.assign (.name x) (.binary op (.name x) (.int n))] := by
  have hname : Derives (.expression false) [.identifier x] (.name x) := .of_primary (.name x)
  have hnumber : Derives (.expression false) [.int n] (.int n) := .of_primary (.int n)
  exact ⟨_, .ended (.assign (.combined op) hname rfl hnumber),
    Procedure.unrollBlock_singleton rfl⟩

/-- A variable is counted up or down. -/
theorem count {sign : Token} {op : BinaryOperator} (hsign : CountsBy sign op) (x : String) :
    UnrollsTo bindings .statement next [.identifier x, sign, .semicolon]
      [.assign (.name x) (.binary op (.name x) (.int 1))] := by
  have hname : Derives (.expression false) [.identifier x] (.name x) := .of_primary (.name x)
  exact ⟨_, .ended (.countAfter hsign hname rfl), Procedure.unrollBlock_singleton rfl⟩

theorem guarded (hc : ResolvesTo bindings (.expression false) ts c)
    (h : UnrollsTo bindings .block next us code) (hnext : next ≠ some .elseWord) :
    UnrollsTo bindings .statement next (.ifWord :: .leftParen :: (ts ++ .rightParen :: us))
      [.branch c code []] := by
  obtain ⟨_, hts, hc⟩ := hc
  obtain ⟨_, hus, hcode⟩ := h
  refine ⟨_, .guarded hts hus hnext, Procedure.unrollBlock_singleton ?_⟩
  rw [Procedure.unrollStatement, hc, hcode]
  rfl

theorem branch (hc : ResolvesTo bindings (.expression false) ts c)
    (h : UnrollsTo bindings .block (some .elseWord) us first)
    (h' : UnrollsTo bindings .block next vs second) :
    UnrollsTo bindings .statement next
      (.ifWord :: .leftParen :: (ts ++ .rightParen :: (us ++ .elseWord :: vs)))
      [.branch c first second] := by
  obtain ⟨_, hts, hc⟩ := hc
  obtain ⟨_, hus, hfirst⟩ := h
  obtain ⟨_, hvs, hsecond⟩ := h'
  refine ⟨_, .branch hts hus hvs, Procedure.unrollBlock_singleton ?_⟩
  rw [Procedure.unrollStatement, hc, hfirst, hsecond]
  rfl

theorem single (h : UnrollsTo bindings .statement next ts code) :
    UnrollsTo bindings .block next ts code :=
  let ⟨_, hts, hcode⟩ := h
  ⟨_, .single hts, hcode⟩

theorem braced (h : UnrollsTo bindings .statements (some .rightBrace) ts code) :
    UnrollsTo bindings .block next (.leftBrace :: (ts ++ [.rightBrace])) code :=
  let ⟨_, hts, hcode⟩ := h
  ⟨_, .braced hts, hcode⟩

theorem nil : UnrollsTo bindings .statements next [] [] :=
  ⟨_, .nil, rfl⟩

theorem cons (h : UnrollsTo bindings .statement (us.head?.or next) ts first)
    (h' : UnrollsTo bindings .statements next us second) :
    UnrollsTo bindings .statements next (ts ++ us) (first ++ second) := by
  obtain ⟨_, hts, hfirst⟩ := h
  obtain ⟨_, hus, hsecond⟩ := h'
  refine ⟨_, .cons hts hus, ?_⟩
  rw [Procedure.unrollBlock_append, hfirst, hsecond]
  rfl

/-- A text spells a procedure that is unrolled to what its tokens come to. -/
theorem exists_ofText {text : String} (htext : tokensOf text = .ok ts)
    (h : UnrollsTo bindings .statements none ts code) :
    ∃ p, Procedure.ofText text = .ok p ∧ ∀ limit, p.unroll bindings limit = .ok code := by
  obtain ⟨p, hts, hcode⟩ := h
  exact ⟨p, Procedure.ofText_eq_ok_iff.mpr ⟨ts, tokensOf_eq_ok_iff.mp htext, hts⟩,
    Procedure.unroll_of_unrollBlock hcode⟩

end UnrollsTo
end Hologram.Script
