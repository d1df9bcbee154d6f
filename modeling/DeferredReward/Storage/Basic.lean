/-!
# Files

What the library needs of a file system: reading a text, writing one in the
steps that a disk takes, and making a folder with those above it. The operations
belong to any monad, so that the same program runs on a pure tree of files and on
a disk, and so that a statement can leave the outcomes of the operations open.
-/

namespace DeferredReward

/-- A path as it was given. -/
structure Path where
  /-- The text of the path. -/
  text : String
  deriving DecidableEq, Repr, Inhabited

/-- The path of `name` inside a folder: the empty path is the current folder. -/
def Path.join (folder : Path) (name : String) : Path :=
  if folder.text.isEmpty || folder.text.endsWith "/" then ⟨folder.text ++ name⟩
  else ⟨folder.text ++ "/" ++ name⟩

/-- Why a file operation failed. -/
inductive IoFault where
  /-- Something on the way, or the thing itself, does not exist. -/
  | notFound
  /-- The thing to be made is already there. -/
  | alreadyExists
  /-- Something on the way is no folder. -/
  | notFolder
  /-- The thing itself is a folder. -/
  | isFolder
  /-- A part of the path, or all of it, is too long. -/
  | nameTooLong
  /-- The path holds the character with number zero. -/
  | zeroCharacter
  /-- Anything else, as the system describes it. -/
  | other (description : String)
  deriving DecidableEq, Repr

/-- The text of the failure. -/
def IoFault.message : IoFault → String
  | notFound => "No such file or directory (os error 2)"
  | alreadyExists => "File exists (os error 17)"
  | notFolder => "Not a directory (os error 20)"
  | isFolder => "Is a directory (os error 21)"
  | nameTooLong => "File name too long (os error 36)"
  | zeroCharacter => "file name contained an unexpected NUL byte"
  | other description => description

/-- At which point the reading of a file failed. -/
inductive ReadFault where
  /-- The file could not be opened. -/
  | unopened (cause : IoFault)
  /-- The file was open, and passing its content failed. -/
  | interrupted (cause : IoFault)
  deriving DecidableEq, Repr

/-- What went wrong, at whichever point. -/
def ReadFault.cause : ReadFault → IoFault
  | unopened cause => cause
  | interrupted cause => cause

/-- At which point the writing of a file failed. -/
inductive WriteFault where
  /-- The file could not be made; a former one is as it was. -/
  | unmade (cause : IoFault)
  /-- The content could not be passed on to its end. -/
  | interrupted (cause : IoFault)
  /-- What had been held back could not be passed on at the end. -/
  | unsettled (cause : IoFault)
  deriving DecidableEq, Repr

/-- The file operations of a monad. -/
class FileSystem (m : Type → Type) where
  /-- The content of a file. -/
  read : Path → m (Except ReadFault String)
  /-- An empty file, in the place of a former one. -/
  create : Path → m (Except IoFault Unit)
  /-- Passes a text on to the file that has just been made. Some of it may be held back. -/
  pass : Path → String → m (Except IoFault Unit)
  /-- Passes on what has been held back of a file. -/
  settle : Path → m (Except IoFault Unit)
  /-- A folder and those above it, as far as they are missing. -/
  makeFolders : Path → m (Except IoFault Unit)

/-- A file with that content, in the place of a former one. The former content is
gone as soon as the file has been made, whatever happens then. -/
def FileSystem.write {m : Type → Type} [Monad m] [FileSystem m] (path : Path) (content : String) :
    m (Except WriteFault Unit) := do
  match ← FileSystem.create path with
  | .error cause => return .error (.unmade cause)
  | .ok () =>
    match ← FileSystem.pass path content with
    | .error cause => return .error (.interrupted cause)
    | .ok () => return (← FileSystem.settle path).mapError .unsettled

end DeferredReward
