import Hologram.CommandLine.Basic

/-! A store of files in memory. Paths are followed folder by folder from the folder in which the
program runs. -/
namespace Hologram.CommandLine

/-- A path from the folder in which the program runs, without detours. -/
abbrev Location := List String

inductive Entry where
  | folder
  | file (text : String)
  deriving DecidableEq, Repr

/-- Folders and files at their locations. The folder in which the program runs and those around it
are always there. -/
structure Disk where
  entries : List (Location × Entry) := []
  deriving Repr

namespace Disk

def around (location : Location) : Location :=
  if location.all (· == "..") then location ++ [".."] else location.dropLast

def entry? (disk : Disk) (location : Location) : Option Entry :=
  if location.all (· == "..") then some .folder else disk.entries.lookup location

def isFolder (disk : Disk) (location : Location) : Bool :=
  disk.entry? location == some .folder

/-- Puts something at a location, in the place of what was there. -/
def put (disk : Disk) (location : Location) (entry : Entry) : Disk :=
  ⟨(location, entry) :: disk.entries.filter (·.1 != location)⟩

/-- Why a path leads nowhere. -/
inductive Lost where
  /-- A part of the path is missing. -/
  | missing
  /-- A part of the path is no folder, the path does not start here, or it is too long. -/
  | blocked
  deriving DecidableEq, Repr

def parts (path : String) : List String :=
  (path.toList.splitBy fun a b => a != '/' && b != '/').filterMap fun part =>
    if part = ['/'] then none else some (String.ofList part)

/-- Whether a path and its parts are no longer than a disk allows, in bytes of UTF-8. -/
def isShort (path : String) : Bool :=
  path.utf8ByteSize < 4096 && (parts path).all (·.utf8ByteSize < 256)

def follow (disk : Disk) (location : Location) : List String → Except Lost Location
  | [] => .ok location
  | part :: rest =>
    if part = "." then follow disk location rest
    else if part = ".." then follow disk (around location) rest
    else match disk.entry? (location ++ [part]) with
      | some .folder => follow disk (location ++ [part]) rest
      | some (.file _) => .error .blocked
      | none => .error .missing

/-- The location that a path leads to, which may be free, while the folders on the way are there. -/
def locate (disk : Disk) (path : String) : Except Lost Location := do
  if path.isEmpty then throw .missing
  if path.toList.head? == some '/' || !isShort path then throw .blocked
  match (parts path).getLast? with
  | none => return []
  | some last =>
    let folder ← disk.follow [] (parts path).dropLast
    if last = "." then return folder
    else if last = ".." then return around folder
    else return folder ++ [last]

def read (disk : Disk) (path : String) : Option String :=
  match disk.locate path with
  | .error _ => none
  | .ok location => match disk.entry? location with
    | some (.file text) => if path.toList.getLast? == some '/' then none else some text
    | _ => none

def leadsToFolder (disk : Disk) (path : String) : Bool :=
  match disk.locate path with
  | .error _ => false
  | .ok location => disk.isFolder location

/-- Creates one folder, if the folder around it is there. -/
def createOne (disk : Disk) (path : String) : Except Lost Disk := do
  let location ← disk.locate path
  match disk.entry? location with
  | none => return disk.put location .folder
  | some _ => throw .blocked

/-- Creates a folder and those around it. Each further call is for a shorter path. -/
def createFolder (disk : Disk) (path : String) : Nat → Bool × Disk
  | 0 => (false, disk)
  | fuel + 1 =>
    if path.isEmpty then (true, disk)
    else match disk.createOne path with
      | .ok disk => (true, disk)
      | .error .blocked => (disk.leadsToFolder path, disk)
      | .error .missing =>
        let (created, disk) := disk.createFolder (parent path) fuel
        if !created then (false, disk)
        else match disk.createOne path with
          | .ok disk => (true, disk)
          | .error _ => (disk.leadsToFolder path, disk)

def write (disk : Disk) (path text : String) : Option Disk :=
  match disk.locate path with
  | .error _ => none
  | .ok location =>
    if disk.isFolder location || path.toList.getLast? == some '/' then none
    else some (disk.put location (.file text))

def withFile (disk : Disk) (path text : String) : Disk :=
  let (_, disk) := disk.createFolder (parent path) (path.length + 1)
  (disk.write path text).getD disk

/-- The files at and below the folder in which the program runs. -/
def files (disk : Disk) : List (String × String) :=
  disk.entries.filterMap fun
    | (location, .file text) =>
      if location.head? == some ".." then none else some ("/".intercalate location, text)
    | (_, .folder) => none

/-- The files that are not on an earlier disk, or have another text there. -/
def changesSince (disk earlier : Disk) : List (String × String) :=
  let old := earlier.files
  disk.files.filter fun file => Dictionary.get? old file.1 != some file.2

def store : FileStore (StateM Disk) where
  read path := do return (← get).read path
  createFolder path := do
    let (created, disk) := (← get).createFolder path (path.length + 1)
    set disk
    return created
  write path text := do
    match (← get).write path text with
    | some disk =>
      set disk
      return true
    | none => return false

/-- Runs the program on a disk: its failure, if it fails, and the disk that it leaves. -/
def run (arguments : List String) (disk : Disk) : Except Failure Unit × Disk :=
  (CommandLine.run store arguments).run.run disk

end Disk
end Hologram.CommandLine
