import Hologram.CommandLine.Basic

/-! The program on the files of the machine. -/
namespace Hologram

def succeeds (action : IO Unit) : IO Bool := do
  match ← action.toBaseIO with
  | .ok _ => return true
  | .error _ => return false

def machineFiles : CommandLine.FileStore IO where
  read path := do
    match ← (IO.FS.readFile path).toBaseIO with
    | .ok text => return some text
    | .error _ => return none
  createFolder path := if path.isEmpty then return true else succeeds (IO.FS.createDirAll path)
  write path text := succeeds (IO.FS.writeFile path text)

end Hologram

/-- Runs the program and tells why it fails, if it does. -/
def main (arguments : List String) : IO UInt32 := do
  match ← (Hologram.CommandLine.run Hologram.machineFiles arguments).run with
  | .ok _ => return 0
  | .error failure =>
    IO.eprintln ("Error: " ++ failure.message)
    return 1
