import Hologram.Proofs.Config.Criteria
import Hologram.Proofs.Script.Signs

/-! Texts in quotes. A string is read from either quote and written in single ones, so that one
with a single quote in it is written and not read again. Criteria put their slots, names and tags
in quotes themselves. -/
namespace Hologram.Script
namespace Lexer

variable {s : String}

/-- A string stands in a quote that it does not hold. -/
theorem not_mem_of_step {c : Char} {cs : List Char} {k : Nat}
    (h : step c cs = .ok (some (.string s), k)) : '\'' ∉ s.toList ∨ '"' ∉ s.toList := by
  generalize ht : some (Token.string s) = token? at h
  cases shape_of_step h with
  | punctuation hp =>
    cases ht
    have hnone : ∀ entry ∈ punctuations, entry.2 ≠ .string s := by simp [punctuations]
    exact absurd rfl (hnone _ (mem_punctuations hp))
  | blank => contradiction
  | quotation hc _ htext =>
    cases ht
    rw [String.toList_ofList]
    rcases hc with rfl | rfl
    · exact .inr htext
    · exact .inl htext
  | number _ hnumber =>
    subst ht
    obtain ⟨-, -, ⟨n, ⟨⟩, -⟩ | ⟨x, ⟨⟩⟩⟩ := number_of_ok hnumber
  | fraction => cases ht
  | word =>
    have hmem := Token.ofWord_mem (c :: cs.takeWhile isNamePart)
    rw [← Option.some.inj ht] at hmem
    simp [Token.ofWords] at hmem
  | sign hsign =>
    subst ht
    exact absurd (sign_of_ok hsign).1 Bool.false_ne_true

theorem Reads.not_mem_of_mem {comments : Bool} {cs rest : List Char} {ts : List Token}
    (h : Reads comments cs ts rest) (hs : .string s ∈ ts) :
    '\'' ∉ s.toList ∨ '"' ∉ s.toList := by
  induction h with
  | done => contradiction
  | blank _ _ ih | comment _ _ _ _ ih => exact ih hs
  | token hstep _ ih =>
    rcases List.mem_cons.mp hs with rfl | hs
    · exact not_mem_of_step hstep
    · exact ih hs

/-- From a quote to the next one of its kind a text is one string. -/
theorem reads_quotation {quote : Char} (hquote : quote = '"' ∨ quote = '\'')
    {text : List Char} (h : quote ∉ text) :
    Reads true (quote :: (text ++ [quote])) [.string (String.ofList text)] [] := by
  have hstep : step quote (text ++ [quote]) =
      .ok (some (.string (String.ofList text)), text.length + 1) := by
    rw [← quotation_of_not_mem h []]
    rcases hquote with rfl | rfl <;> rfl
  refine .token hstep ?_
  rw [List.drop_of_length_le (by simp)]
  exact .done

/-- A text that begins with a quote begins with the string up to the next one of its kind. -/
theorem Reads.head?_of_quotation {cs : List Char} {ts : List Token}
    (h : Reads true ('\'' :: cs) ts []) :
    ts.head? = some (.string (String.ofList (cs.takeWhile (· != '\'')))) := by
  cases h with
  | blank hc => contradiction
  | comment _ _ hs =>
    obtain ⟨_, _, _, _, ht, -⟩ := quotation_eq_ok hs
    contradiction
  | token hs =>
    change quotation '\'' cs = _ at hs
    unfold quotation at hs
    dsimp only at hs
    split_ifs at hs
    cases hs
    rfl

end Lexer
open Lexer

section
variable (s : String)

/-- The strings that can be read are those that lack one of the two quotes. -/
theorem exists_tokensOf_string_iff :
    (∃ text ts, tokensOf text = .ok ts ∧ .string s ∈ ts) ↔
      '\'' ∉ s.toList ∨ '"' ∉ s.toList := by
  constructor
  · rintro ⟨text, ts, hts, hs⟩
    exact (tokensOf_eq_ok_iff.mp hts).not_mem_of_mem hs
  · intro h
    obtain ⟨quote, hquote, hmem⟩ : ∃ quote, (quote = '"' ∨ quote = '\'') ∧ quote ∉ s.toList := by
      rcases h with h | h
      · exact ⟨'\'', .inr rfl, h⟩
      · exact ⟨'"', .inl rfl, h⟩
    refine ⟨String.ofList (quote :: (s.toList ++ [quote])), [.string s], ?_, .head _⟩
    have hreads := reads_quotation hquote hmem
    rw [String.ofList_toList] at hreads
    rwa [tokensOf_eq_ok_iff, String.toList_ofList]

theorem toList_text_string :
    (Expression.string s).text.toList = '\'' :: (s.toList ++ ['\'']) := by
  simp [Expression.text]

variable {s}

/-- The text of a string is first read as a string that ends at the first single quote. -/
theorem head?_of_tokensOf_text {ts : List Token}
    (h : tokensOf (Expression.string s).text = .ok ts) :
    ts.head? = some (.string (String.ofList (s.toList.takeWhile (· != '\'')))) := by
  have hquote : (s.toList ++ ['\'']).takeWhile (· != '\'') = s.toList.takeWhile (· != '\'') := by
    induction s.toList with
    | nil => rfl
    | cons c cs ih => rw [List.cons_append, List.takeWhile_cons, List.takeWhile_cons, ih]
  rw [tokensOf_eq_ok_iff, toList_text_string] at h
  rw [h.head?_of_quotation, hquote]

/-- The text of a string is read as that string alone when there is no single quote in it, and only
then. -/
theorem tokensOf_text_string_iff :
    tokensOf (Expression.string s).text = .ok [.string s] ↔ '\'' ∉ s.toList := by
  constructor
  · intro h hmem
    have hhead := head?_of_tokensOf_text h
    simp only [List.head?_cons, Option.some.injEq, Token.string.injEq] at hhead
    rw [hhead, String.toList_ofList] at hmem
    simpa using List.all_eq_true.mp List.all_takeWhile _ hmem
  · intro h
    have hreads := reads_quotation (.inr rfl) h
    rw [String.ofList_toList] at hreads
    rwa [tokensOf_eq_ok_iff, toList_text_string]

end

/-- Strings in quotes. A string that can be read lacks one of the two quotes; its text is read as
that string alone when it lacks the single quote, and else as a string that ends there. Criteria
without single quotes are read as the queries that they stand for. -/
theorem quotes_read_back (s slot : String) (criteria : ItemCriteria) :
    ((∃ text ts, tokensOf text = .ok ts ∧ .string s ∈ ts) ↔
        '\'' ∉ s.toList ∨ '"' ∉ s.toList) ∧
      (tokensOf (Expression.string s).text = .ok [.string s] ↔ '\'' ∉ s.toList) ∧
      (∀ ts, tokensOf (Expression.string s).text = .ok ts →
        ts.head? = some (.string (String.ofList (s.toList.takeWhile (· != '\''))))) ∧
      (criteria.Quotable → '\'' ∉ slot.toList →
        Expression.ofText (criteria.code slot) = .ok (criteria.expression slot)) := by
  refine ⟨exists_tokensOf_string_iff s, tokensOf_text_string_iff,
    fun _ => head?_of_tokensOf_text, fun h hslot => ?_⟩
  have hfaithful := ItemCriteria.faithful_expression h hslot
  rw [← ItemCriteria.text_expression]
  exact hfaithful.ofText_eq

/-- A string in double quotes may hold a single one, with criteria by two names and a tag. -/
theorem quotes_read_back_apostrophe :
    let criteria : ItemCriteria := ⟨["stick", "mod:wand"], ["logs"]⟩
    ((∃ text ts, tokensOf text = .ok ts ∧ .string "it's" ∈ ts) ∧
      tokensOf (Expression.string "it's").text ≠ .ok [.string "it's"]) ∧
      Expression.ofText (criteria.code "slot.weapon.mainhand") =
        .ok (.binary .or
          (.call "q.is_item_name_any" [.string "slot.weapon.mainhand", .string "minecraft:stick",
            .string "mod:wand"])
          (.call "q.equipped_item_any_tag" [.string "slot.weapon.mainhand",
            .string "minecraft:logs"])) := by
  intro criteria
  obtain ⟨hread, halone, -, hcriteria⟩ :=
    quotes_read_back "it's" "slot.weapon.mainhand" criteria
  exact ⟨⟨hread.mpr (.inr (by decide)), fun h => halone.mp h (by decide)⟩,
    hcriteria (by decide) (by decide)⟩

/-- Not every string that can be read is read again from its text. -/
theorem string_not_always_read_back :
    ¬ ∀ s, (∃ text ts, tokensOf text = .ok ts ∧ .string s ∈ ts) →
      tokensOf (Expression.string s).text = .ok [.string s] := by
  intro h
  have hread := (exists_tokensOf_string_iff "it's").mpr (.inr (by decide))
  exact tokensOf_text_string_iff.mp (h _ hread) (by decide)

end Hologram.Script
