import Hologram.Error
import Hologram.Structure.Saved

/-! Bringing saved blocks up to date. A table of renames is followed until it ends, and a chain of
renames that never ends is an error. -/
namespace Hologram

/-- How saved blocks are brought up to date. -/
inductive Upgrader where
  /-- Every block stays as it is. -/
  | keep
  /-- Blocks of versions before `latest` get the names that the table leads to. -/
  | rename (latest : Int) (table : Dictionary String)
  deriving Repr

namespace Upgrader

/-- The game version whose blocks are never out of date. -/
def latestKnown : Int := 18168865

/-- The version that upgraded blocks have. -/
def latest : Upgrader → Int
  | keep => latestKnown
  | rename latest _ => latest

/-- Whether a block is out of date. A block without a version is not. -/
def isOutdated : Upgrader → SavedBlock → Bool
  | keep, _ => false
  | rename latest _, block => block.version.any (· < latest)

/-- The end of the chain of renames from a name, if it takes at most `hops` renames. -/
def chainEnd? (table : Dictionary String) : Nat → String → Option String
  | 0, name => if (table.get? name).isNone then some name else none
  | hops + 1, name => match table.get? name with
    | none => some name
    | some next => chainEnd? table hops next

/-- A block name in two parts: up to the first colon, the colon included, and after it. -/
def splitNamespace (name : String) : String × String :=
  let cs := name.toList
  if cs.contains ':' then
    (String.ofList (cs.takeWhile (· != ':') ++ [':']),
      String.ofList ((cs.dropWhile (· != ':')).tail))
  else ("", name)

/-- Brings the block at hand up to date. A chain that ends passes each name once, so the number of
renames in the table bounds its length. When it does not end, the block is left as it is. -/
def updateInPlace : Upgrader → EStateM PackError SavedBlock Unit
  | keep => pure ()
  | rename latest table => do
    let block ← get
    let (space, name) := splitNamespace block.name
    match chainEnd? table table.length name with
    | some last => set { block with name := space ++ last, version := some latest }
    | none => throw (.endlessRenames block.name)

/-- A block brought up to date. -/
def update (upgrader : Upgrader) (block : SavedBlock) : Except PackError SavedBlock :=
  match upgrader.updateInPlace.run block with
  | .ok _ updated => .ok updated
  | .error e _ => .error e

def updateIfOutdated (upgrader : Upgrader) (block : SavedBlock) : Except PackError SavedBlock :=
  if upgrader.isOutdated block then upgrader.update block else .ok block

def ofDocument? (d : Document) : Option Upgrader := do
  let record ← d.record? ["latest_version", "renames"]
  let latest ← Document.required? record "latest_version" Document.toInt32?
  let table ← Document.optional? record "renames" [] (Document.toDictionary? Document.toText?)
  return rename latest table

def ofText? (text : String) : Option Upgrader := do
  ofDocument? (← Document.read? text)

end Upgrader

/-- The text of a version: its four bytes from the highest to the lowest. -/
def versionText (version : Int) : String :=
  let bits := (version % Number.Width.bits32.count).toNat
  ".".intercalate ([24, 16, 8, 0].map fun shift => toString ((bits >>> shift) % 256))

example : versionText 18090528 = "1.20.10.32" ∧ versionText (-1) = "255.255.255.255" := by
  decide +kernel

example : (Upgrader.rename 2 [("a", "b"), ("b", "c")]).update ⟨"x:a", [], some 1, none⟩ matches
    .ok ⟨"x:c", [], some 2, none⟩ := by decide +kernel

end Hologram
