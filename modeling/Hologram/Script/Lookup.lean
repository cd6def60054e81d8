import Hologram.Script.Emission

/-! Look-up tables as code. The target language has no arrays, so a table becomes nested
conditionals on its index. A long table is halved until each part fits one chain of comparisons. An
index outside the keys falls through to the last entry of the chain it is led to. -/
namespace Hologram.Script

/-- Entries of a table: an integer and the text of the value under it. -/
abbrev Lookup := List (Int × String)

namespace Lookup

/-- The greatest number of entries in one chain unless it is chosen otherwise. -/
def defaultThreshold : Nat := 50

/-- A chain of comparisons. Every entry but the first is nested one level deeper, and the last needs
no comparison. -/
def chain (variableName : String) : Lookup → String
  | [] => "0"
  | [(_, value)] => value
  | [(key, value), (_, last)] =>
    variableName ++ "==" ++ toString key ++ "?" ++ value ++ ":" ++ last
  | (key, value) :: rest =>
    variableName ++ "==" ++ toString key ++ "?" ++ value ++ ":" ++
      parenthesized (chain variableName rest)

/-- The code of a table whose keys ascend, with chains of at most `threshold + 1` entries. -/
def halved (threshold : Nat) (variableName : String) (entries : Lookup) : String :=
  if entries.length ≤ threshold + 1 then chain variableName entries
  else
    let middle := entries.length / 2
    let boundary := ((entries.drop middle).head?.map (·.1)).getD 0
    variableName ++ "<" ++ toString boundary ++ "?" ++
      parenthesized (halved threshold variableName (entries.take middle)) ++ ":" ++
      parenthesized (halved threshold variableName (entries.drop middle))
  termination_by entries.length
  decreasing_by all_goals (simp; omega)

/-- The entries in ascending order of their keys; of entries with one key the first stays. -/
def ascending (entries : Lookup) : Lookup :=
  let sorted := entries.mergeSort fun a b => a.1 ≤ b.1
  sorted.foldr (fun entry rest => entry :: rest.dropWhile fun other => other.1 == entry.1) []

/-- The code of a table whose chains hold at most `threshold` entries, and one at the least. -/
def code (threshold : Nat) (variableName : String) (entries : Lookup) : String :=
  halved (threshold - 1) variableName entries

/-- The code of a table with arbitrary keys. -/
def ofEntries (threshold : Nat) (variableName : String) (entries : Lookup) : String :=
  code threshold variableName entries.ascending

/-- The code of a list of values, with their positions as keys. -/
def ofList (threshold : Nat) (variableName : String) (values : List String) : String :=
  code threshold variableName (values.zipIdx.map fun (value, key) => ((key : Int), value))

/-- The code of rows of values, selected by one variable and read by another. -/
def ofRows (threshold : Nat) (outer inner : String) (rows : List (List String)) : String :=
  ofList threshold outer (rows.map fun row => parenthesized (ofList threshold inner row))

example : ofList 50 "v.i" ["7", "8", "9", "10"] = "v.i==0?7:(v.i==1?8:(v.i==2?9:10))" := by
  decide +kernel

example : ofList 2 "v.i" ["7", "8", "9"] = "v.i<1?(7):(v.i==1?8:9)" := by decide +kernel

end Lookup
end Hologram.Script
