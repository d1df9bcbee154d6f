import DeferredReward.CommandLine.Program

/-!
# The command line on a disk

The file operations of the system, and the program run with them.
-/

namespace DeferredReward

/-- The failure that the system reports. -/
def IoFault.ofSystem : IO.Error → IoFault
  | .noFileOrDirectory .. => .notFound
  | .alreadyExists .. => .alreadyExists
  | .inappropriateType _ code _ =>
    if code = 20 then .notFolder else if code = 21 then .isFolder else .other s!"os error {code}"
  | e => .other (toString e)

/-- A file operation with its failure as a value. -/
def attempt {β : Type} (action : IO β) : IO (Except IoFault β) := do
  match ← action.toBaseIO with
  | .ok x => return .ok x
  | .error e => return .error (.ofSystem e)

instance : FileSystem IO where
  read path := do
    match ← attempt (IO.FS.readFile path.text) with
    | .ok text => return .ok text
    | .error .isFolder => return .error (.interrupted .isFolder)
    | .error cause => return .error (.unopened cause)
  create path := attempt (IO.FS.writeFile path.text "")
  pass path text := attempt (IO.FS.writeFile path.text text)
  settle _ := return .ok ()
  makeFolders path :=
    if path.text.isEmpty then return .ok () else attempt (IO.FS.createDirAll path.text)

end DeferredReward

/-- Runs the program with the arguments of the command line. -/
def main (args : List String) : IO UInt32 := do
  let exit : DeferredReward.CommandLine.Exit ← DeferredReward.CommandLine.program args
  IO.print exit.output
  IO.eprint exit.errors
  return exit.code
