import Hologram.Proofs.Dictionary
import Hologram.Proofs.Json.Strings
import Hologram.Proofs.Number.Digits
import Mathlib.Data.List.Forall2
import Mathlib.Data.Option.Basic

/-! Equality of JSON values that does not see the order of members, and the canonical text, which
is the same for two values exactly when they are equal in that sense. -/
namespace Hologram.Json
open Number

/-- Equality of values in which the order of members has no part, at any depth. -/
inductive Same : Json → Json → Prop where
  | null : Same null null
  | bool (value : Bool) : Same (bool value) (bool value)
  | int (value : Int) : Same (int value) (int value)
  | float (value : Float) : Same (float value) (float value)
  | string (text : String) : Same (string text) (string text)
  | array {xs ys : List Json} (h : List.Forall₂ Same xs ys) : Same (array xs) (array ys)
  | object {d e : Dictionary Json}
      (h : ∀ name, Option.Rel Same (d.get? name) (e.get? name)) : Same (object d) (object e)

/-- Values without numbers that have a point, and in whose objects no name occurs twice. -/
inductive Plain : Json → Prop where
  | null : Plain null
  | bool (value : Bool) : Plain (bool value)
  | int (value : Int) : Plain (int value)
  | string (text : String) : Plain (string text)
  | array {items : List Json} (h : ∀ item ∈ items, Plain item) : Plain (array items)
  | object {members : Dictionary Json} (hd : members.Distinct)
      (h : ∀ member ∈ members, Plain member.2) : Plain (object members)

attribute [simp] Plain.null Plain.bool Plain.int Plain.string

@[simp] theorem plain_array_iff {items : List Json} :
    (array items).Plain ↔ ∀ item ∈ items, item.Plain :=
  ⟨fun h => by cases h; assumption, .array⟩

@[simp] theorem plain_object_iff {members : Dictionary Json} :
    (object members).Plain ↔ members.Distinct ∧ ∀ member ∈ members, member.2.Plain :=
  ⟨fun h => by cases h; exact ⟨‹_›, ‹_›⟩, fun h => .object h.1 h.2⟩

@[simp] theorem canonicalText_int (value : Int) : (int value).canonicalText = toString value := by
  rw [canonicalText, textWith]

@[simp] theorem canonicalText_string (text : String) :
    (string text).canonicalText = stringText text := by
  rw [canonicalText, textWith]

theorem canonicalText_array (items : List Json) :
    (array items).canonicalText = arrayText (items.map canonicalText) := by
  have htexts : ∀ items, textsWith Dictionary.sorted items = items.map canonicalText := by
    intro items
    induction items with
    | nil => rw [textsWith, List.map_nil]
    | cons item items ih => rw [textsWith, ih, List.map_cons, canonicalText]
  rw [canonicalText, textWith, htexts]

/-- The names of the members of an object with the canonical texts of their values. -/
def canonicalMembers (members : Dictionary Json) : Dictionary String :=
  members.map fun member => (member.1, member.2.canonicalText)

theorem memberTextsWith_eq_map (arrange : Dictionary String → Dictionary String)
    (members : List (String × Json)) :
    memberTextsWith arrange members =
      members.map fun member => (member.1, member.2.textWith arrange) := by
  induction members with
  | nil => rw [memberTextsWith, List.map_nil]
  | cons member rest ih =>
    rw [memberTextsWith, ih, List.map_cons]

theorem canonicalText_object (members : Dictionary Json) :
    (object members).canonicalText = objectText (canonicalMembers members).sorted := by
  rw [canonicalText, textWith, memberTextsWith_eq_map]
  rfl

/-- The order of the members has no part in the canonical text of an object. -/
theorem canonicalText_object_of_perm {d e : Dictionary Json} (h : d.Distinct) (p : d.Perm e) :
    (object d).canonicalText = (object e).canonicalText := by
  rw [canonicalText_object, canonicalText_object]
  unfold canonicalMembers
  rw [Dictionary.sorted_eq_of_perm (h.map _) (p.map _)]

/-- Two texts that differ go on to differ whatever comes after them. -/
def Parts (s t : String) : Prop :=
  ∀ x y, EndsDigits x → EndsDigits y → s.toList ++ x = t.toList ++ y → s = t ∧ x = y

theorem toList_intercalate_cons (s : String) (rest : List String) :
    (",".intercalate (s :: rest)).toList = s.toList ++ rest.flatMap fun t => ',' :: t.toList := by
  induction rest generalizing s with
  | nil => simp
  | cons t rest ih =>
    rw [String.intercalate_cons_cons, String.toList_append, ih, List.flatMap_cons]
    simp

theorem endsDigits_more {close : Char} (hclose : close.isDigit = false) (rest : List String)
    (x : List Char) : EndsDigits (rest.flatMap (fun t => ',' :: t.toList) ++ close :: x) := by
  cases rest with
  | nil => exact .cons hclose x
  | cons t rest => exact .cons (by decide) _

theorem more_inj {close : Char} (hclose : close.isDigit = false) (hcomma : close ≠ ',')
    {xs ys : List String} (h : ∀ s ∈ xs, ∀ t ∈ ys, Parts s t) {x y : List Char}
    (heq : xs.flatMap (fun t => ',' :: t.toList) ++ close :: x =
      ys.flatMap (fun t => ',' :: t.toList) ++ close :: y) : xs = ys ∧ x = y := by
  induction xs generalizing ys with
  | nil =>
    cases ys with
    | nil => simpa using heq
    | cons t ys => exact absurd (List.cons.inj heq).1 hcomma
  | cons s xs ih =>
    cases ys with
    | nil => exact absurd (List.cons.inj heq).1.symm hcomma
    | cons t ys =>
      simp only [List.flatMap_cons, List.cons_append, List.append_assoc, List.cons.injEq,
        true_and] at heq
      obtain ⟨rfl, hrest⟩ := h s (.head _) t (.head _) _ _ (endsDigits_more hclose xs x)
        (endsDigits_more hclose ys y) heq
      obtain ⟨rfl, rfl⟩ := ih (fun s hs t ht => h s (.tail _ hs) t (.tail _ ht)) hrest
      exact ⟨rfl, rfl⟩

/-- A text between brackets, with commas between its parts, tells its parts. -/
theorem intercalate_inj {close : Char} (hclose : close.isDigit = false) (hcomma : close ≠ ',')
    {xs ys : List String} (hxs : ∀ s ∈ xs, ∀ x y, s.toList ++ x ≠ close :: y)
    (hys : ∀ t ∈ ys, ∀ x y, t.toList ++ x ≠ close :: y) (h : ∀ s ∈ xs, ∀ t ∈ ys, Parts s t)
    {x y : List Char} (heq : (",".intercalate xs).toList ++ close :: x =
      (",".intercalate ys).toList ++ close :: y) : xs = ys ∧ x = y := by
  cases xs with
  | nil =>
    cases ys with
    | nil => simpa using heq
    | cons t ys =>
      rw [toList_intercalate_cons, List.append_assoc] at heq
      exact absurd heq.symm (hys t (.head _) _ _)
  | cons s xs =>
    cases ys with
    | nil =>
      rw [toList_intercalate_cons, List.append_assoc] at heq
      exact absurd heq (hxs s (.head _) _ _)
    | cons t ys =>
      rw [toList_intercalate_cons, toList_intercalate_cons, List.append_assoc,
        List.append_assoc] at heq
      obtain ⟨rfl, hrest⟩ := h s (.head _) t (.head _) _ _ (endsDigits_more hclose xs x)
        (endsDigits_more hclose ys y) heq
      obtain ⟨rfl, rfl⟩ :=
        more_inj hclose hcomma (fun s hs t ht => h s (.tail _ hs) t (.tail _ ht)) hrest
      exact ⟨rfl, rfl⟩

theorem stringText_append_ne (s : String) {close : Char} (hclose : close ≠ '"') (x y : List Char) :
    (stringText s).toList ++ x ≠ close :: y := by
  intro h
  simp [stringText] at h
  exact hclose h.1.symm

theorem parts_member {key other : String} {value text : String} (h : Parts value text) :
    Parts (stringText key ++ ":" ++ value) (stringText other ++ ":" ++ text) := by
  intro x y hx hy heq
  simp only [String.toList_append, List.append_assoc] at heq
  obtain ⟨rfl, hrest⟩ := stringText_inj heq
  obtain ⟨rfl, rfl⟩ := h x y hx hy (List.append_cancel_left hrest)
  exact ⟨rfl, rfl⟩

theorem memberText_inj {a b : String × String}
    (h : stringText a.1 ++ ":" ++ a.2 = stringText b.1 ++ ":" ++ b.2) : a = b := by
  have hlist := congrArg String.toList h
  simp only [String.toList_append, List.append_assoc] at hlist
  obtain ⟨hname, hvalue⟩ := stringText_inj hlist
  exact Prod.ext hname (String.toList_inj.mp (List.append_cancel_left hvalue))

theorem arrayText_inj {xs ys : List String} (hxs : ∀ s ∈ xs, ∀ x y, s.toList ++ x ≠ ']' :: y)
    (hys : ∀ t ∈ ys, ∀ x y, t.toList ++ x ≠ ']' :: y) (h : ∀ s ∈ xs, ∀ t ∈ ys, Parts s t)
    {x y : List Char} (heq : (arrayText xs).toList ++ x = (arrayText ys).toList ++ y) :
    xs = ys ∧ x = y := by
  simp only [arrayText, String.toList_append, List.append_assoc] at heq
  exact intercalate_inj (by decide) (by decide) hxs hys h (List.append_cancel_left heq)

theorem objectText_inj {d e : List (String × String)} (h : ∀ a ∈ d, ∀ b ∈ e, Parts a.2 b.2)
    {x y : List Char} (heq : (objectText d).toList ++ x = (objectText e).toList ++ y) :
    d = e ∧ x = y := by
  have hne : ∀ f : List (String × String), ∀ s ∈ memberTexts f, ∀ x y,
      s.toList ++ x ≠ '\x7d' :: y := by
    intro f s hs x y
    obtain ⟨a, -, rfl⟩ := List.mem_map.mp hs
    simp only [String.toList_append, List.append_assoc]
    exact stringText_append_ne a.1 (by decide) _ y
  have hparts : ∀ s ∈ memberTexts d, ∀ t ∈ memberTexts e, Parts s t := by
    intro s hs t ht
    obtain ⟨a, ha, rfl⟩ := List.mem_map.mp hs
    obtain ⟨b, hb, rfl⟩ := List.mem_map.mp ht
    exact parts_member (h a ha b hb)
  simp only [objectText, String.toList_append, List.append_assoc] at heq
  obtain ⟨htexts, hxy⟩ := intercalate_inj (by decide) (by decide) (hne d) (hne e) hparts
    (List.append_cancel_left heq)
  exact ⟨List.map_injective_iff.mpr (fun _ _ => memberText_inj) htexts, hxy⟩

/-- The kinds of values that the first character of a text tells apart. -/
inductive Kind where
  | null
  | truth (value : Bool)
  | string
  | array
  | object
  | number
  deriving DecidableEq

def kindOf? : Char → Option Kind
  | 'n' => some .null
  | 't' => some (.truth true)
  | 'f' => some (.truth false)
  | '"' => some .string
  | '[' => some .array
  | '\x7b' => some .object
  | c => if c.isDigit || c = '-' then some .number else none

def kind : Json → Kind
  | null => .null
  | bool value => .truth value
  | string _ => .string
  | array _ => .array
  | object _ => .object
  | int _ | float _ => .number

theorem kindOf?_of_isDigit {c : Char} (h : c.isDigit = true) : kindOf? c = some .number := by
  unfold kindOf?
  split <;> first | contradiction | simp [h]

/-- The first character of a text tells the kind of the value. -/
theorem exists_cons_canonicalText {a : Json} (h : a.Plain) :
    ∃ c cs, a.canonicalText.toList = c :: cs ∧ kindOf? c = some a.kind := by
  cases h with
  | null => exact ⟨'n', _, rfl, rfl⟩
  | bool value => cases value <;> exact ⟨_, _, rfl, rfl⟩
  | int value =>
    obtain ⟨c, cs, hcs, hc⟩ := exists_cons_toDigits value.natAbs
    rw [canonicalText_int, toList_toString_int, hcs]
    split_ifs
    · exact ⟨'-', _, rfl, rfl⟩
    · exact ⟨c, cs, rfl, kindOf?_of_isDigit hc⟩
  | string =>
    rw [canonicalText_string, stringText, String.append_assoc, String.toList_append]
    exact ⟨'"', _, rfl, rfl⟩
  | array =>
    rw [canonicalText_array, arrayText, String.append_assoc, String.toList_append]
    exact ⟨'[', _, rfl, rfl⟩
  | object =>
    rw [canonicalText_object, objectText, String.append_assoc, String.toList_append]
    exact ⟨'\x7b', _, rfl, rfl⟩

theorem canonicalText_append_ne {a : Json} (h : a.Plain) (x y : List Char) :
    a.canonicalText.toList ++ x ≠ ']' :: y := by
  intro heq
  obtain ⟨c, cs, hcs, hkind⟩ := exists_cons_canonicalText h
  rw [hcs] at heq
  obtain rfl := (List.cons.inj heq).1
  contradiction

theorem kind_eq {a b : Json} (ha : a.Plain) (hb : b.Plain) {x y : List Char}
    (h : a.canonicalText.toList ++ x = b.canonicalText.toList ++ y) : a.kind = b.kind := by
  obtain ⟨c, cs, hcs, hc⟩ := exists_cons_canonicalText ha
  obtain ⟨d, ds, hds, hd⟩ := exists_cons_canonicalText hb
  rw [hcs, hds] at h
  rw [(List.cons.inj h).1, hd] at hc
  exact (Option.some.inj hc).symm

theorem canonicalText_array_inj {xs ys : List Json} (hxs : ∀ a ∈ xs, a.Plain)
    (hys : ∀ b ∈ ys, b.Plain)
    (h : ∀ a ∈ xs, ∀ b ∈ ys, Parts a.canonicalText b.canonicalText) {x y : List Char}
    (heq : (array xs).canonicalText.toList ++ x = (array ys).canonicalText.toList ++ y) :
    xs.map canonicalText = ys.map canonicalText ∧ x = y := by
  have hne {items : List Json} (h : ∀ item ∈ items, Plain item) :
      ∀ s ∈ items.map canonicalText, ∀ x y, s.toList ++ x ≠ ']' :: y := by
    simpa using fun item hitem => canonicalText_append_ne (h item hitem)
  rw [canonicalText_array, canonicalText_array] at heq
  exact arrayText_inj (hne hxs) (hne hys) (by simpa using h) heq

theorem canonicalText_object_inj {d e : Dictionary Json}
    (h : ∀ a ∈ d, ∀ b ∈ e, Parts a.2.canonicalText b.2.canonicalText) {x y : List Char}
    (heq : (object d).canonicalText.toList ++ x = (object e).canonicalText.toList ++ y) :
    (canonicalMembers d).sorted = (canonicalMembers e).sorted ∧ x = y := by
  have hparts : ∀ a ∈ canonicalMembers d, ∀ b ∈ canonicalMembers e, Parts a.2 b.2 := by
    intro a ha b hb
    obtain ⟨member, hmember, rfl⟩ := List.mem_map.mp ha
    obtain ⟨other, hother, rfl⟩ := List.mem_map.mp hb
    exact h member hmember other hother
  rw [canonicalText_object, canonicalText_object] at heq
  refine objectText_inj (fun a ha b hb => ?_) heq
  exact hparts a ((Dictionary.sorted_perm _).mem_iff.mp ha) b
    ((Dictionary.sorted_perm _).mem_iff.mp hb)

/-- No canonical text begins another one, up to the digits of numbers. -/
theorem parts_canonicalText {a b : Json} (ha : a.Plain) (hb : b.Plain) :
    Parts a.canonicalText b.canonicalText := by
  induction ha generalizing b with
  | null =>
    intro x y _ _ h
    have hkind := kind_eq .null hb h
    cases b <;> simp only [kind, reduceCtorEq] at hkind
    exact ⟨rfl, List.append_cancel_left h⟩
  | bool value =>
    intro x y _ _ h
    have hkind := kind_eq (.bool value) hb h
    cases b <;> simp only [kind, reduceCtorEq, Kind.truth.injEq] at hkind
    subst hkind
    exact ⟨rfl, List.append_cancel_left h⟩
  | int value =>
    intro x y hx hy h
    have hkind := kind_eq (.int value) hb h
    cases hb <;> simp only [kind, reduceCtorEq] at hkind
    rw [canonicalText_int, canonicalText_int] at h
    obtain ⟨rfl, hxy⟩ := toString_int_append_inj hx hy h
    exact ⟨rfl, hxy⟩
  | string text =>
    intro x y _ _ h
    have hkind := kind_eq (.string text) hb h
    cases b <;> simp only [kind, reduceCtorEq] at hkind
    rw [canonicalText_string, canonicalText_string] at h
    obtain ⟨rfl, hxy⟩ := stringText_inj h
    exact ⟨rfl, hxy⟩
  | array hitems ih =>
    intro x y _ _ h
    have hkind := kind_eq (.array hitems) hb h
    cases hb <;> simp only [kind, reduceCtorEq] at hkind
    rename_i hothers
    obtain ⟨htexts, hxy⟩ := canonicalText_array_inj hitems hothers
      (fun item hitem other hother => ih item hitem (hothers other hother)) h
    rw [canonicalText_array, canonicalText_array, htexts]
    exact ⟨rfl, hxy⟩
  | object hd hmembers ih =>
    intro x y _ _ h
    have hkind := kind_eq (.object hd hmembers) hb h
    cases hb <;> simp only [kind, reduceCtorEq] at hkind
    rename_i hothers
    obtain ⟨hsorted, hxy⟩ := canonicalText_object_inj
      (fun member hmember other hother => ih member hmember (hothers other hother)) h
    rw [canonicalText_object, canonicalText_object, hsorted]
    exact ⟨rfl, hxy⟩

theorem Same.kind_eq {a b : Json} (h : Same a b) : a.kind = b.kind := by
  cases h <;> rfl

theorem same_array_iff {xs ys : List Json} :
    Same (array xs) (array ys) ↔ List.Forall₂ Same xs ys :=
  ⟨fun h => by cases h; assumption, .array⟩

theorem same_object_iff {d e : Dictionary Json} : Same (object d) (object e) ↔
    ∀ name, Option.Rel Same (d.get? name) (e.get? name) :=
  ⟨fun h => by cases h; assumption, .object⟩

/-- An object without members is the same as no other. -/
theorem isEmpty_eq_of_same {d e : Dictionary Json} (h : Same (object d) (object e)) :
    d.isEmpty = e.isEmpty := by
  rw [same_object_iff] at h
  have hsome {name : String} {value : Json} {rest : Dictionary Json} :
      Dictionary.get? ((name, value) :: rest) name = some value := by
    rw [Dictionary.get?_cons, if_pos rfl]
  cases d with
  | nil =>
    cases e with
    | nil => rfl
    | cons entry e => cases hsome ▸ h entry.1
  | cons entry d =>
    cases e with
    | nil => cases hsome ▸ h entry.1
    | cons => rfl

theorem canonicalText_array_eq_iff {xs ys : List Json} (hxs : ∀ a ∈ xs, a.Plain)
    (hys : ∀ b ∈ ys, b.Plain) : (array xs).canonicalText = (array ys).canonicalText ↔
      xs.map canonicalText = ys.map canonicalText := by
  constructor
  · intro h
    refine (canonicalText_array_inj hxs hys (fun a ha b hb => ?_)
      (congrArg (·.toList ++ []) h)).1
    exact parts_canonicalText (hxs a ha) (hys b hb)
  · intro h
    rw [canonicalText_array, canonicalText_array, h]

theorem canonicalText_object_eq_iff {d e : Dictionary Json} (hd : d.Distinct) (he : e.Distinct)
    (hdp : ∀ a ∈ d, a.2.Plain) (hep : ∀ b ∈ e, b.2.Plain) :
    (object d).canonicalText = (object e).canonicalText ↔
      ∀ name, (d.get? name).map canonicalText = (e.get? name).map canonicalText := by
  have hsorted : (canonicalMembers d).sorted = (canonicalMembers e).sorted ↔
      ∀ name, (d.get? name).map canonicalText = (e.get? name).map canonicalText := by
    unfold canonicalMembers
    rw [Dictionary.sorted_eq_iff (hd.map _) (he.map _)]
    simp only [Dictionary.get?_map]
  rw [← hsorted]
  constructor
  · intro h
    refine (canonicalText_object_inj (fun a ha b hb => ?_) (congrArg (·.toList ++ []) h)).1
    exact parts_canonicalText (hdp a ha) (hep b hb)
  · intro h
    rw [canonicalText_object, canonicalText_object, h]

theorem map_eq_map_iff_forall₂ {α β γ : Type} {f : α → γ} {g : β → γ} {R : α → β → Prop}
    {xs : List α} {ys : List β} (h : ∀ x ∈ xs, ∀ y ∈ ys, f x = g y ↔ R x y) :
    xs.map f = ys.map g ↔ List.Forall₂ R xs ys := by
  induction xs generalizing ys with
  | nil => cases ys <;> simp
  | cons x xs ih =>
    cases ys with
    | nil => simp
    | cons y ys =>
      rw [List.map_cons, List.map_cons, List.cons.injEq, List.forall₂_cons,
        h x (.head _) y (.head _), ih fun x hx y hy => h x (.tail _ hx) y (.tail _ hy)]

theorem map_eq_map_iff_rel {α β γ : Type} {f : α → γ} {g : β → γ} {R : α → β → Prop}
    {x? : Option α} {y? : Option β} (h : ∀ x ∈ x?, ∀ y ∈ y?, f x = g y ↔ R x y) :
    x?.map f = y?.map g ↔ Option.Rel R x? y? := by
  cases x? <;> cases y? <;> simp_all

/-- Only values of one kind can have one canonical text, or be the same. -/
theorem canonicalText_eq_iff_of_kind {a b : Json} (ha : a.Plain) (hb : b.Plain)
    (h : a.kind = b.kind → (a.canonicalText = b.canonicalText ↔ Same a b)) :
    a.canonicalText = b.canonicalText ↔ Same a b :=
  ⟨fun heq => (h (kind_eq ha hb (congrArg (·.toList ++ []) heq))).mp heq,
    fun hsame => (h hsame.kind_eq).mpr hsame⟩

/-- Values have one canonical text exactly when they are the same up to the order of members. -/
theorem canonicalText_eq_iff {a b : Json} (ha : a.Plain) (hb : b.Plain) :
    a.canonicalText = b.canonicalText ↔ Same a b := by
  induction ha generalizing b with
  | null =>
    refine canonicalText_eq_iff_of_kind .null hb fun hkind => ?_
    cases b <;> simp only [kind, reduceCtorEq] at hkind
    exact iff_of_true rfl .null
  | bool value =>
    refine canonicalText_eq_iff_of_kind (.bool value) hb fun hkind => ?_
    cases b <;> simp only [kind, reduceCtorEq, Kind.truth.injEq] at hkind
    exact iff_of_true (hkind ▸ rfl) (hkind ▸ .bool value)
  | int value =>
    refine canonicalText_eq_iff_of_kind (.int value) hb fun hkind => ?_
    cases hb <;> simp only [kind, reduceCtorEq] at hkind
    rw [canonicalText_int, canonicalText_int]
    constructor
    · intro h
      obtain ⟨rfl, -⟩ := toString_int_append_inj endsDigits_nil endsDigits_nil
        (congrArg (String.toList · ++ []) h)
      exact .int value
    · rintro ⟨⟩
      rfl
  | string text =>
    refine canonicalText_eq_iff_of_kind (.string text) hb fun hkind => ?_
    cases b <;> simp only [kind, reduceCtorEq] at hkind
    rw [canonicalText_string, canonicalText_string]
    constructor
    · intro h
      obtain ⟨rfl, -⟩ := stringText_inj (congrArg (String.toList · ++ []) h)
      exact .string text
    · rintro ⟨⟩
      rfl
  | @array items hitems ih =>
    refine canonicalText_eq_iff_of_kind (.array hitems) hb fun hkind => ?_
    cases hb <;> simp only [kind, reduceCtorEq] at hkind
    rename_i others hothers
    rw [canonicalText_array_eq_iff hitems hothers, same_array_iff]
    exact map_eq_map_iff_forall₂ fun item hitem other hother =>
      ih item hitem (hothers other hother)
  | @object d hd hmembers ih =>
    refine canonicalText_eq_iff_of_kind (.object hd hmembers) hb fun hkind => ?_
    cases hb <;> simp only [kind, reduceCtorEq] at hkind
    rename_i e he hothers
    rw [canonicalText_object_eq_iff hd he hmembers hothers, same_object_iff]
    refine forall_congr' fun name => map_eq_map_iff_rel fun value hvalue other hother => ?_
    exact ih _ (hd.get?_eq_some_iff.mp hvalue) (hothers _ (he.get?_eq_some_iff.mp hother))

end Hologram.Json
