import Hologram.Pack.Files

/-! The command line: reads structures, settings and renames, makes a pack, and writes its files.
The files are reached through three operations, so that the same program runs on any store of
files. -/
namespace Hologram.CommandLine

structure Arguments where
  structures : String
  config : Option String := none
  output : String := "pack"
  upgrades : Option String := none
  deriving DecidableEq, Repr

def usage : String :=
  "usage: holo_pack <structures.json> [config.json] [-o out_dir] [--upgrades renames.json]"

namespace Arguments

/-- Arguments as far as they are read, the positional ones in reverse. -/
structure Partial where
  positional : List String := []
  output : String := "pack"
  upgrades : Option String := none

/-- Reads arguments one after the other. An option takes the next argument, whatever it is, and of
an option that is given twice the last one holds. -/
def scan (read : Partial) : List String → Option Partial
  | [] => some read
  | argument :: rest =>
    if argument = "-o" ∨ argument = "--output" then
      match rest with
      | [] => none
      | output :: rest => scan { read with output } rest
    else if argument = "--upgrades" then
      match rest with
      | [] => none
      | upgrades :: rest => scan { read with upgrades := some upgrades } rest
    else scan { read with positional := argument :: read.positional } rest

/-- What a list of arguments asks for: one or two positional arguments and the options. -/
def ofList? (arguments : List String) : Option Arguments := do
  let read ← scan {} arguments
  match read.positional.reverse with
  | [structures] => return ⟨structures, none, read.output, read.upgrades⟩
  | [structures, config] => return ⟨structures, some config, read.output, read.upgrades⟩
  | _ => none

example : ofList? ["-o", "out", "a", "--upgrades", "u", "b"] =
    some ⟨"a", some "b", "out", some "u"⟩ := by decide

end Arguments

inductive Failure where
  | usage
  | unreadable (path : String)
  | malformedStructures (path : String)
  | malformedConfig (path : String)
  | malformedRenames (path : String)
  | pack (error : PackError)
  | uncreated (folder : String)
  | unwritten (path : String)
  deriving DecidableEq, Repr

namespace Failure

def message : Failure → String
  | usage => CommandLine.usage
  | unreadable path => "failed to read " ++ path
  | malformedStructures path => "malformed structure file " ++ path
  | malformedConfig path => "malformed config file " ++ path
  | malformedRenames path => "malformed rename table " ++ path
  | pack error => error.message
  | uncreated folder => "failed to create " ++ folder
  | unwritten path => "failed to write " ++ path

end Failure

structure FileStore (m : Type → Type) where
  /-- The text of a file, if it can be read. -/
  read : String → m (Option String)
  /-- Creates a folder and those around it. Whether the folder is there afterwards. -/
  createFolder : String → m Bool
  /-- Gives a file a text. Whether it could be written. -/
  write : String → String → m Bool

def joined (folder path : String) : String :=
  if folder.isEmpty || folder.toList.getLast? == some '/' then folder ++ path
  else folder ++ "/" ++ path

def parent (path : String) : String :=
  let folder := (path.toList.reverse.dropWhile (· != '/')).dropWhile (· == '/')
  String.ofList folder.reverse

section

variable {m : Type → Type} [Monad m] (files : FileStore m)

abbrev Action (m : Type → Type) := ExceptT Failure m

/-- The value of a document in a file, or the failure for a document that gives none. -/
def readDocument {α : Type} (decode : String → Option α) (malformed : String → Failure)
    (path : String) : Action m α := do
  match ← (files.read path : m (Option String)) with
  | none => throw (.unreadable path)
  | some text => match decode text with
    | none => throw (malformed path)
    | some value => return value

def writeFile (output : String) (file : PackFile) : Action m Unit := do
  let path := joined output file.path
  let folder := parent path
  if !(← (files.createFolder folder : m Bool)) then throw (.uncreated folder)
  if !(← (files.write path file.text : m Bool)) then throw (.unwritten path)

/-- Runs the program: the arguments, the structures, the settings, the renames, the pack, and at
last its files. The first failure ends it. -/
def run (arguments : List String) : Action m Unit := do
  match Arguments.ofList? arguments with
  | none => throw .usage
  | some arguments =>
    let input ← readDocument files StructureFile.ofText? .malformedStructures arguments.structures
    let config ← match arguments.config with
      | some path => readDocument files Config.ofText? .malformedConfig path
      | none => pure Config.standard
    let upgrader ← match arguments.upgrades with
      | some path => readDocument files Upgrader.ofText? .malformedRenames path
      | none => pure Upgrader.keep
    match (Pack.make config upgrader input.structures).outcome.1 with
    | .error error => throw (.pack error)
    | .ok pack => pack.files.forM (writeFile files arguments.output)

end

end Hologram.CommandLine
