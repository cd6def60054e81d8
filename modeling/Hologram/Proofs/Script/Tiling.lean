import Mathlib
import Hologram.Proofs.Script.Cuts
import Hologram.Script.Parser.Basic

/-! The places of the tokens in their text. From one token to the next a text holds that token and
nothing else that counts. -/
namespace Hologram.Script
namespace Lexer

/-- A step reads no further than to the end of the text. -/
theorem le_length_of_step {c : Char} {cs : List Char} {token? : Option Token} {k : Nat}
    (h : step c cs = .ok (token?, k)) : k ≤ cs.length := by
  cases token? with
  | some t => exact length_of_step h
  | none =>
    by_cases hc : isSpace c = true
    · rw [step_of_isSpace hc] at h
      cases h
      exact length_takeWhile_le isSpace cs
    · exact (comment_append (by simpa using hc) h).1

/-- What stands behind a step begins behind the characters that the step reads. -/
theorem offset_behind {c : Char} {cs : List Char} {k : Nat} (hk : k ≤ cs.length) (offset : Nat)
    (behind : List Char) :
    offset + (c :: (cs.take k ++ behind)).length = offset + k + 1 + behind.length := by
  rw [List.length_cons, List.length_append, List.length_take_of_le hk]
  omega

theorem offset_drop {c : Char} {cs : List Char} {k : Nat} (hk : k ≤ cs.length) (offset : Nat) :
    offset + (c :: cs).length = offset + k + 1 + (cs.drop k).length := by
  rw [← offset_behind hk, List.take_append_drop]

/-- Reading a text that begins at an offset to its end, each token with its place. -/
inductive Placed : Nat → List Char → List Lexeme → Prop where
  | done {offset : Nat} : Placed offset [] []
  | skip {offset k : Nat} {c : Char} {cs : List Char} {ls : List Lexeme}
      (hs : step c cs = .ok (none, k)) (h : Placed (offset + k + 1) (cs.drop k) ls) :
      Placed offset (c :: cs) ls
  | token {offset k : Nat} {c : Char} {cs : List Char} {t : Token} {ls : List Lexeme}
      (hs : step c cs = .ok (some t, k)) (h : Placed (offset + k + 1) (cs.drop k) ls) :
      Placed offset (c :: cs) (⟨t, offset⟩ :: ls)

theorem placed_of_scan {offset : Nat} {read lexemes : List Lexeme} {cs : List Char}
    (h : scan offset read cs = .ok lexemes) :
    ∃ more, lexemes = read.reverse ++ more ∧ Placed offset cs more := by
  fun_induction scan offset read cs with
  | case1 offset read =>
    cases h
    exact ⟨[], (List.append_nil _).symm, .done⟩
  | case2 => contradiction
  | case3 offset read c cs token? further hstep read' ih =>
    obtain ⟨more, rfl, hmore⟩ := ih h
    cases token? with
    | some t => exact ⟨⟨t, offset⟩ :: more, by simp [read'], .token hstep hmore⟩
    | none => exact ⟨more, rfl, .skip hstep hmore⟩

namespace Placed

variable {offset : Nat} {cs : List Char} {l : Lexeme} {ls before after : List Lexeme}

theorem scan_eq (h : Placed offset cs ls) (read : List Lexeme) :
    scan offset read cs = .ok (read.reverse ++ ls) := by
  induction h generalizing read with
  | done => rw [scan, List.append_nil]
  | skip hs _ ih =>
    rw [scan, hs]
    exact ih read
  | token hs _ ih =>
    rw [scan, hs]
    exact (ih _).trans (by rw [List.reverse_cons, List.append_assoc, List.singleton_append])

/-- A text that is read at its own beginning. -/
theorem ofText_eq {text : String} (h : Placed 0 text.toList ls) :
    TokenList.ofText text = .ok ⟨ls, text.length⟩ := by
  rw [TokenList.ofText, h.scan_eq, ← String.length_toList]
  rfl

theorem offset_le (h : Placed offset cs ls) : ∀ l ∈ ls, offset ≤ l.offset := by
  induction h with
  | done => exact fun l hl => absurd hl List.not_mem_nil
  | skip _ _ ih => exact fun l hl => (ih l hl).trans' (by omega)
  | token _ _ ih =>
    refine List.forall_mem_cons.mpr ⟨Nat.le_refl _, fun l hl => ?_⟩
    exact (ih l hl).trans' (by omega)

/-- Each token stands behind those before it. -/
theorem pairwise (h : Placed offset cs ls) : ls.Pairwise fun l m => l.offset < m.offset := by
  induction h with
  | done => exact .nil
  | skip _ _ ih => exact ih
  | @token offset k _ _ _ _ _ h ih =>
    refine .cons (fun m hm => ?_) ih
    have hbehind := h.offset_le m hm
    change offset < m.offset
    omega

/-- A text is cut before its first token: what is in front of it leaves no token, wherever it
stands. -/
theorem exists_gap (h : Placed offset cs ls) :
    ∃ gap rest, cs = gap ++ rest ∧ (∀ o, Placed o gap []) ∧
      Placed (offset + gap.length) rest ls ∧
        Parser.position (offset + cs.length) ls = offset + gap.length := by
  induction h with
  | done => exact ⟨[], [], rfl, fun o => .done, .done, rfl⟩
  | @skip offset k c cs ls hs _ ih =>
    obtain ⟨gap, rest, hdrop, hgap, hrest, hposition⟩ := ih
    have hk := le_length_of_step hs
    obtain ⟨hwhole, hbehind, hstep⟩ := step_take_append hs hk hdrop
    refine ⟨_, rest, hwhole, fun o => .skip hstep ?_, ?_, ?_⟩
    · rw [hbehind]
      exact hgap _
    · rwa [offset_behind hk]
    · rw [offset_drop hk, hposition, offset_behind hk]
  | @token offset k c cs t ls hs h _ =>
    exact ⟨[], c :: cs, rfl, fun o => .done, .token hs h, rfl⟩

/-- A text is cut before its first token and before its second one: what lies between holds the
first token alone, wherever it stands. -/
theorem exists_first (h : Placed offset cs (l :: ls)) :
    ∃ gap piece rest, cs = gap ++ piece ++ rest ∧ (∀ o, Placed o piece [⟨l.token, o⟩]) ∧
      Placed (offset + gap.length + piece.length) rest ls ∧ l.offset = offset + gap.length ∧
        Parser.position (offset + cs.length) ls = offset + gap.length + piece.length := by
  obtain ⟨gap, behind, rfl, -, hfirst, hl⟩ := h.exists_gap
  replace hl : l.offset = offset + gap.length := hl
  cases hfirst with
  | skip hs hlater =>
    -- the first token stands right behind the gap, so nothing is skipped there
    have hbehind := hlater.offset_le l (.head _)
    omega
  | @token _ k c cs t _ hs hmore =>
    obtain ⟨blank, rest, hdrop, hblank, hrest, hposition⟩ := hmore.exists_gap
    have hk := le_length_of_step hs
    obtain ⟨hwhole, hbehind, hstep⟩ := step_take_append hs hk hdrop
    refine ⟨gap, c :: (cs.take k ++ blank), rest, ?_, fun o => .token hstep ?_, ?_, rfl, ?_⟩
    · rw [hwhole, List.append_assoc]
    · rw [hbehind]
      exact hblank _
    · rwa [offset_behind hk]
    · rw [List.length_append, ← Nat.add_assoc, offset_drop hk, hposition, offset_behind hk]

/-- Each token has its piece of the text, up to where the next token stands. -/
theorem exists_piece (h : Placed offset cs (before ++ l :: after)) :
    ∃ front piece rest, cs = front ++ piece ++ rest ∧ (∀ o, Placed o piece [⟨l.token, o⟩]) ∧
      l.offset = offset + front.length ∧
        Parser.position (offset + cs.length) after = l.offset + piece.length := by
  induction before generalizing offset cs with
  | nil =>
    obtain ⟨gap, piece, rest, hcs, hpiece, -, hl, hposition⟩ := h.exists_first
    exact ⟨gap, piece, rest, hcs, hpiece, hl, by rw [hposition, hl]⟩
  | cons m before ih =>
    obtain ⟨gap, first, more, rfl, -, hmore, -, -⟩ := h.exists_first
    obtain ⟨front, piece, rest, rfl, hpiece, hl, hposition⟩ := ih hmore
    refine ⟨gap ++ first ++ front, piece, rest, by simp only [List.append_assoc], hpiece, ?_, ?_⟩
    · rw [hl, List.length_append, List.length_append, ← Nat.add_assoc, ← Nat.add_assoc]
    · have hstop : offset + (gap ++ first ++ (front ++ piece ++ rest)).length =
          offset + gap.length + first.length + (front ++ piece ++ rest).length := by
        rw [List.length_append, List.length_append, ← Nat.add_assoc, ← Nat.add_assoc]
      rw [hstop, hposition]

end Placed
end Lexer

/-- The characters of a text from one place up to another. -/
def slice (text : String) (start stop : Nat) : String :=
  String.ofList (text.toList.extract start stop)

namespace TokenList
open Lexer

theorem placed_of_ofText {text : String} {tokens : TokenList} (h : ofText text = .ok tokens) :
    Placed 0 text.toList tokens.lexemes ∧ tokens.stop = text.length := by
  obtain ⟨lexemes, hscan, h⟩ := bind_eq_ok.mp h
  rw [← pure_eq_ok.mp h]
  obtain ⟨more, rfl, hmore⟩ := placed_of_scan hscan
  exact ⟨hmore, String.length_toList⟩

/-- A part of a text that is read on its own. -/
theorem ofText_slice {text : String} {front piece rest : List Char} {ls : List Lexeme}
    (htext : text.toList = front ++ piece ++ rest) (h : Placed 0 piece ls) :
    ofText (slice text front.length (front.length + piece.length)) =
      .ok ⟨ls, piece.length⟩ := by
  have hslice : slice text front.length (front.length + piece.length) = String.ofList piece := by
    rw [slice, htext, List.extract_eq_take_drop, List.append_assoc, List.drop_left,
      Nat.add_sub_cancel_left, List.take_left]
  rw [hslice, Placed.ofText_eq (by rwa [String.toList_ofList]), ← String.length_toList,
    String.toList_ofList]

/-- The tokens tile their text. They stand one behind the other, all before its end. What is before
the first of them is read as no token, and what lies between a token and the next one, or the end of
the text, is read on its own as that token and no other. -/
theorem tiles_of_ofText {text : String} {tokens : TokenList} (h : ofText text = .ok tokens) :
    (tokens.lexemes.Pairwise fun l m => l.offset < m.offset) ∧
      (∀ l ∈ tokens.lexemes, l.offset < text.length) ∧
      ofText (slice text 0 (Parser.position text.length tokens.lexemes)) =
        .ok ⟨[], Parser.position text.length tokens.lexemes⟩ ∧
      ∀ before l after, tokens.lexemes = before ++ l :: after →
        ofText (slice text l.offset (Parser.position text.length after)) =
          .ok ⟨[⟨l.token, 0⟩], Parser.position text.length after - l.offset⟩ := by
  obtain ⟨hplaced, -⟩ := placed_of_ofText h
  have hstop : 0 + text.toList.length = text.length := by
    rw [Nat.zero_add, String.length_toList]
  refine ⟨hplaced.pairwise, fun l hl => ?_, ?_, fun before l after hlexemes => ?_⟩
  · obtain ⟨before, after, hlexemes⟩ := List.append_of_mem hl
    rw [hlexemes] at hplaced
    obtain ⟨front, piece, rest, htext, hpiece, hoffset, -⟩ := hplaced.exists_piece
    have hpos : piece ≠ [] := by
      rintro rfl
      cases hpiece 0
    have hlength := congrArg List.length htext
    have := List.length_pos_of_ne_nil hpos
    rw [List.length_append, List.length_append] at hlength
    omega
  · obtain ⟨gap, rest, htext, hgap, -, hposition⟩ := hplaced.exists_gap
    rw [hstop, Nat.zero_add] at hposition
    have hslice := ofText_slice (show text.toList = [] ++ gap ++ rest from htext) (hgap 0)
    rw [List.length_nil, Nat.zero_add] at hslice
    rw [hposition, hslice]
  · rw [hlexemes] at hplaced
    obtain ⟨front, piece, rest, htext, hpiece, hoffset, hposition⟩ := hplaced.exists_piece
    rw [hstop] at hposition
    rw [Nat.zero_add] at hoffset
    rw [hposition, hoffset, ofText_slice htext (hpiece 0), Nat.add_sub_cancel_left]

set_option maxRecDepth 20000 in
/-- Blanks and comments belong to the token before them. -/
theorem tiles_comment :
    let tokens : TokenList := ⟨[⟨.identifier "é", 5⟩, ⟨.operator .coalesce, 7⟩, ⟨.question, 9⟩,
      ⟨.assign, 10⟩, ⟨.int 12, 11⟩], 17⟩
    ofText " /**/é ???=12 //\"" = .ok tokens ∧
      ofText (slice " /**/é ???=12 //\"" 0 5) = .ok ⟨[], 5⟩ ∧
      ofText (slice " /**/é ???=12 //\"" 7 9) = .ok ⟨[⟨.operator .coalesce, 0⟩], 2⟩ := by
  intro tokens
  have htokens : ofText " /**/é ???=12 //\"" = .ok tokens := by cbv
  obtain ⟨-, -, hfirst, hpieces⟩ := tiles_of_ofText htokens
  exact ⟨htokens, hfirst, hpieces [⟨.identifier "é", 5⟩] ⟨.operator .coalesce, 7⟩
    [⟨.question, 9⟩, ⟨.assign, 10⟩, ⟨.int 12, 11⟩] rfl⟩

end TokenList
end Hologram.Script
