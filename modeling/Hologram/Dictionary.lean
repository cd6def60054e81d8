/-! Dictionaries: named values in the order in which the names were first given. -/
namespace Hologram

/-- Values under names. A name that occurs again later in the list is hidden by its first place. -/
abbrev Dictionary (α : Type) := List (String × α)

namespace Dictionary

variable {α : Type}

def get? (d : Dictionary α) (name : String) : Option α :=
  List.lookup name d

/-- Gives a name a value: in its place when the name is there already, else at the end. -/
def insert : Dictionary α → String → α → Dictionary α
  | [], name, value => [(name, value)]
  | (other, old) :: rest, name, value =>
    if other = name then (other, value) :: rest else (other, old) :: insert rest name value

/-- Takes a name away. The last entry moves into the free place. -/
def erase : Dictionary α → String → Dictionary α
  | [], _ => []
  | (other, value) :: rest, name =>
    if other = name then
      match rest.getLast? with
      | some last => last :: rest.dropLast
      | none => []
    else (other, value) :: erase rest name

/-- The dictionary of a list of entries, where a later entry replaces an earlier one of its name. -/
def ofEntries (entries : List (String × α)) : Dictionary α :=
  entries.foldl (fun d entry => d.insert entry.1 entry.2) []

/-- The entries in the order of their names, which is the order of their UTF-8 bytes. -/
def sorted (d : Dictionary α) : List (String × α) :=
  d.mergeSort fun a b => a.1 ≤ b.1

/-- The entries of a list in the order of their names, where a later entry replaces all earlier ones
of its name. -/
def collected (entries : List (String × α)) : Dictionary α :=
  (sorted entries.reverse).foldr
    (fun entry rest => entry :: rest.dropWhile fun other => other.1 == entry.1) []

@[simp] theorem get?_nil (name : String) : get? ([] : Dictionary α) name = none := rfl

theorem get?_cons (other name : String) (value : α) (rest : Dictionary α) :
    get? ((other, value) :: rest) name = if other = name then some value else get? rest name := by
  by_cases h : other = name
  · simp [get?, h]
  · simp [get?, List.lookup_cons, h, show (name == other) = false by simp [Ne.symm h]]

/-- After an insertion the name has the new value and every other name its old one. -/
@[simp] theorem get?_insert (d : Dictionary α) (name other : String) (value : α) :
    get? (d.insert name value) other = if name = other then some value else get? d other := by
  induction d with
  | nil => simp [insert, get?_cons]
  | cons entry rest ih =>
    obtain ⟨key, old⟩ := entry
    by_cases h : key = name
    · subst h
      by_cases ho : key = other <;> simp [insert, get?_cons, ho]
    · by_cases ho : key = other
      · subst ho
        simp [insert, get?_cons, h, Ne.symm h]
      · simp [insert, get?_cons, h, ho, ih]

/-- Sorting moves the entries and keeps them. -/
theorem sorted_perm (d : Dictionary α) : d.sorted.Perm d :=
  List.mergeSort_perm ..

example : sorted [("b", 1), ("a", 2)] = [("a", 2), ("b", 1)] := by cbv

example : collected [("b", 1), ("a", 2), ("b", 3)] = [("a", 2), ("b", 3)] := by cbv

example : erase [("a", 1), ("b", 2), ("c", 3)] "a" = [("c", 3), ("b", 2)] := by decide

end Dictionary
end Hologram
