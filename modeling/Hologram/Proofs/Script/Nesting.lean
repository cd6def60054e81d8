import Hologram.Proofs.Script.Lookup

/-! How deep the code of a table nests. Its parentheses are balanced, halving leaves chains that are
neither empty nor too long, and each halving takes one parenthesis. -/
namespace Hologram.Script
open Lexer

/-- How deep the parentheses of a text nest when some of them are open before it, if they are
balanced. A pair counts where it is closed. -/
def nestingFrom (opened : Nat) : List Char → Option Nat
  | [] => if opened = 0 then some 0 else none
  | c :: cs =>
    if c = '(' then nestingFrom (opened + 1) cs
    else if c = ')' then
      if opened = 0 then none else (nestingFrom (opened - 1) cs).map (max opened)
    else nestingFrom opened cs

/-- How deep the parentheses of a text nest, if they are balanced. -/
def nesting? (text : String) : Option Nat :=
  nestingFrom 0 text.toList

example : nesting? "(a)*((b)+c)" = some 2 := by decide +kernel

example : nesting? "(a))*((b)" = none := by decide +kernel

/-- Whatever is open is nested. -/
theorem opened_le {opened depth : Nat} {cs : List Char} (h : nestingFrom opened cs = some depth) :
    opened ≤ depth := by
  fun_induction nestingFrom opened cs generalizing depth with
  | case1 => exact Nat.zero_le _
  | case2 => contradiction
  | case3 opened cs ih => exact Nat.le_of_succ_le (ih h)
  | case4 => contradiction
  | case5 opened cs _ _ ih =>
    obtain ⟨further, -, rfl⟩ := Option.map_eq_some_iff.mp h
    exact Nat.le_max_left _ _
  | case6 opened c cs _ _ ih => exact ih h

/-- A text that is balanced on its own, with pairs nested to a depth. -/
def Nests (text : String) (depth : Nat) : Prop :=
  ∀ opened rest, nestingFrom opened (text.toList ++ rest) =
    (nestingFrom opened rest).map (max (opened + depth))

namespace Nests

variable {text text' : String} {depth depth' : Nat}

theorem nesting?_eq (h : Nests text depth) : nesting? text = some depth := by
  have hend := h 0 []
  rw [List.append_nil] at hend
  rw [nesting?, hend]
  simp [nestingFrom]

theorem append (h : Nests text depth) (h' : Nests text' depth') :
    Nests (text ++ text') (max depth depth') := by
  intro opened rest
  rw [String.toList_append, List.append_assoc, h, h', Option.map_map]
  congr 1
  funext further
  simp only [Function.comp_apply]
  omega

theorem parenthesized (h : Nests text depth) : Nests (parenthesized text) (depth + 1) := by
  intro opened rest
  have hopen : nestingFrom opened ('(' :: (text.toList ++ ')' :: rest)) =
      nestingFrom (opened + 1) (text.toList ++ ')' :: rest) := rfl
  have hclose : nestingFrom (opened + 1) (')' :: rest) =
      (nestingFrom opened rest).map (max (opened + 1)) := rfl
  have htext : (Script.parenthesized text).toList ++ rest =
      '(' :: (text.toList ++ ')' :: rest) := by
    simp [Script.parenthesized]
  rw [htext, hopen, h, hclose, Option.map_map]
  congr 1
  funext further
  simp only [Function.comp_apply]
  omega

end Nests

/-- A text without parentheses. -/
def Flat (text : String) : Prop :=
  ∀ c ∈ text.toList, c ≠ '(' ∧ c ≠ ')'

theorem Flat.nests {text : String} (h : Flat text) : Nests text 0 := by
  intro opened rest
  have hrest : nestingFrom opened rest = (nestingFrom opened rest).map (max (opened + 0)) := by
    cases hdepth : nestingFrom opened rest with
    | none => rfl
    | some depth => rw [Option.map_some, Nat.add_zero, Nat.max_eq_right (opened_le hdepth)]
  rw [← hrest]
  unfold Flat at h
  generalize text.toList = cs at h
  induction cs with
  | nil => rfl
  | cons c cs ih =>
    obtain ⟨⟨hopen, hclose⟩, hcs⟩ := List.forall_mem_cons.mp h
    rw [List.cons_append, nestingFrom, if_neg hopen, if_neg hclose, ih hcs]

/-- Characters of a kind that parentheses are not of. -/
theorem flat_of_forall {p : Char → Bool} (hopen : p '(' = false) (hclose : p ')' = false)
    {text : String} (h : ∀ c ∈ text.toList, p c = true) : Flat text :=
  fun c hc => ⟨ne_of_apply_ne p (by simp [h c hc, hopen]),
    ne_of_apply_ne p (by simp [h c hc, hclose])⟩

theorem flat_of_isName {x : String} (h : isName x = true) : Flat x :=
  flat_of_forall (by decide) (by decide) fun _ => isNamePart_of_mem h

theorem flat_toString_int (n : Int) : Flat (toString n) :=
  flat_of_forall (by decide) (by decide) fun _ => Number.isDigit_or_minus_of_mem

/-- A conditional nests as deep as its branches do. -/
theorem Nests.conditional {x text text' : String} {depth depth' : Nat} (hx : Flat x)
    {sign : String} (hsign : Flat sign) (key : Int) (h : Nests text depth)
    (h' : Nests text' depth') :
    Nests (x ++ sign ++ toString key ++ "?" ++ text ++ ":" ++ text') (max depth depth') := by
  have hquestion : Flat "?" := by simp [Flat]
  have hcolon : Flat ":" := by simp [Flat]
  have hall := (((((hx.nests.append hsign.nests).append (flat_toString_int key).nests).append
    hquestion.nests).append h).append hcolon.nests).append h'
  simpa using hall

namespace Lookup

/-- Code that is a chain, or that leads to one of two codes with the chains of both. The first key
of the second code is where they part. -/
inductive Chains (x : String) : String → List Lookup → Prop
  | chain (entries : Lookup) : Chains x (chain x entries) [entries]
  | halves {lower upper : String} {ls us : List Lookup} {boundary : Int} {value : String}
      (hlower : Chains x lower ls) (hupper : Chains x upper us)
      (hboundary : us.flatten.head? = some (boundary, value)) :
      Chains x (x ++ "<" ++ toString boundary ++ "?" ++ parenthesized lower ++ ":" ++
        parenthesized upper) (ls ++ us)

section

variable {x : String} {entries : Lookup}

/-- Every entry of a chain but the first and the last is nested one deeper. -/
theorem nests_chain (hx : Flat x) (h : ∀ entry ∈ entries, Flat entry.2) :
    Nests (chain x entries) (entries.length - 2) := by
  have hequal : Flat "==" := by simp [Flat]
  induction entries with
  | nil =>
    have hzero : Flat "0" := by simp [Flat]
    exact hzero.nests
  | cons entry rest ih =>
    obtain ⟨key, value⟩ := entry
    obtain ⟨hvalue, hrest⟩ := List.forall_mem_cons.mp h
    match rest, hrest, ih with
    | [], _, _ => exact hvalue.nests
    | [(key', last)], hrest, ih => exact .conditional hx hequal key hvalue.nests (ih hrest)
    | next :: after :: others, hrest, ih =>
      have hnested := Nests.conditional hx hequal key hvalue.nests (ih hrest).parenthesized
      rwa [Nat.zero_max] at hnested

/-- The chains are found with their entries in order, and none is empty if there are entries. -/
theorem exists_chains (x : String) (threshold : Nat) (entries : Lookup) :
    ∃ chains, Chains x (halved threshold x entries) chains ∧ chains.flatten = entries ∧
      (entries ≠ [] → ∀ c ∈ chains, 1 ≤ c.length ∧ c.length ≤ threshold + 1) := by
  fun_induction halved threshold x entries with
  | case1 entries hlength =>
    refine ⟨[entries], .chain entries, by simp, fun hne c hc => ?_⟩
    rw [List.mem_singleton.mp hc]
    exact ⟨List.length_pos_of_ne_nil hne, hlength⟩
  | case2 entries hlength middle boundary ihlower ihupper =>
    obtain ⟨ls, hls, hlower, hlslength⟩ := ihlower
    obtain ⟨us, hus, hupper, huslength⟩ := ihupper
    have hhalf : middle < entries.length := by omega
    have hupperne : entries.drop middle ≠ [] := by simpa using hhalf
    have hlowerne : entries.take middle ≠ [] := by
      rw [← List.length_pos_iff, List.length_take]
      omega
    obtain ⟨⟨key, value⟩, others, hfirst⟩ := List.exists_cons_of_ne_nil hupperne
    have hboundary : boundary = key := by simp [boundary, hfirst]
    refine ⟨ls ++ us, ?_, ?_, fun _ c hc => ?_⟩
    · rw [hboundary]
      exact .halves hls hus (by rw [hupper, hfirst]; rfl)
    · rw [List.flatten_append, hlower, hupper, List.take_append_drop]
    · rcases List.mem_append.mp hc with hc | hc
      · exact hlslength hlowerne c hc
      · exact huslength hupperne c hc

/-- Each halving takes one parenthesis, and what is then left in a chain takes one less than its
comparisons. -/
theorem nests_halved (hx : Flat x) (threshold : Nat) (h : ∀ entry ∈ entries, Flat entry.2) :
    ∃ depth, Nests (halved threshold x entries) depth ∧
      ∀ k, entries.length ≤ (threshold + 1) * 2 ^ k → depth ≤ threshold - 1 + k := by
  have hless : Flat "<" := by simp [Flat]
  fun_induction halved threshold x entries with
  | case1 entries hlength => exact ⟨_, nests_chain hx h, fun k _ => by omega⟩
  | case2 entries hlength middle boundary ihlower ihupper =>
    obtain ⟨d, hd, hlower⟩ := ihlower fun entry hentry => h entry (List.mem_of_mem_take hentry)
    obtain ⟨e, he, hupper⟩ := ihupper fun entry hentry => h entry (List.mem_of_mem_drop hentry)
    refine ⟨_, .conditional hx hless boundary hd.parenthesized he.parenthesized, fun k hk => ?_⟩
    cases k with
    | zero => omega
    | succ k =>
      -- The longer half has at most one entry more, and an even number bounds both together.
      rw [Nat.pow_succ, ← Nat.mul_assoc] at hk
      have hlower := hlower k (by rw [List.length_take]; omega)
      have hupper := hupper k (by rw [List.length_drop]; omega)
      omega

end

/-- The parentheses of a table's code are balanced. Its chains hold the entries in order, of which
none is empty or longer than the threshold, and the code nests no deeper than one chain with a
parenthesis for each time that the entries have to be halved. -/
theorem nesting_ofEntries (threshold : Nat) {x : String} (hx : isName x = true) {entries : Lookup}
    (h : ∀ entry ∈ entries, Flat entry.2) :
    (∃ chains, Chains x (ofEntries threshold x entries) chains ∧
        chains.flatten = entries.ascending ∧
        (entries ≠ [] → ∀ c ∈ chains, 1 ≤ c.length ∧ c.length ≤ max threshold 1)) ∧
      ∃ depth, nesting? (ofEntries threshold x entries) = some depth ∧
        ∀ k, entries.length ≤ max threshold 1 * 2 ^ k → depth ≤ (max threshold 1 - 2) + k := by
  have hthreshold : threshold - 1 + 1 = max threshold 1 := by omega
  obtain ⟨chains, hchains, hentries, hlengths⟩ :=
    exists_chains x (threshold - 1) entries.ascending
  have hflat : ∀ entry ∈ entries.ascending, Flat entry.2 :=
    fun entry hentry => h entry (mem_of_mem_ascending hentry)
  obtain ⟨depth, hnests, hdepth⟩ := nests_halved (flat_of_isName hx) (threshold - 1) hflat
  rw [hthreshold] at hlengths hdepth
  refine ⟨⟨chains, hchains, hentries, fun hne => hlengths (ascending_ne_nil hne)⟩,
    depth, hnests.nesting?_eq, fun k hk => ?_⟩
  have hbound := hdepth k (Nat.le_trans (length_ascending_le entries) hk)
  omega

/-- Five entries in chains of two, where three halvings would be one too many. -/
theorem nesting_ofEntries_five :
    let entries : Lookup := [(4, "1"), (-1, "2"), (0, "3"), (9, "4"), (7, "-5")]
    isName "v.i" = true ∧ (∀ entry ∈ entries, Flat entry.2) ∧
      (∃ chains, Chains "v.i" (ofEntries 2 "v.i" entries) chains ∧
        chains.flatten = entries.ascending ∧ ∀ c ∈ chains, 1 ≤ c.length ∧ c.length ≤ 2) ∧
      ∃ depth, nesting? (ofEntries 2 "v.i" entries) = some depth ∧ depth ≤ 2 := by
  intro entries
  have hname : isName "v.i" = true := by decide
  have hflat : ∀ entry ∈ entries, Flat entry.2 := by simp [entries, Flat]
  obtain ⟨⟨chains, hchains, hentries, hlengths⟩, depth, hdepth, hbound⟩ :=
    nesting_ofEntries 2 hname hflat
  exact ⟨hname, hflat, ⟨chains, hchains, hentries, hlengths (List.cons_ne_nil _ _)⟩, depth, hdepth,
    hbound 2 (by decide)⟩

end Lookup
end Hologram.Script
