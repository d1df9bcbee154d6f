import DeferredReward.Storage.Basic

/-!
# A tree of files as a value

A pure file system: the nodes below a current folder by the names that lead to
them. Every folder on the way to a node is a node itself. Paths are followed
name by name, where `.` stays and `..` goes back to the folder above; nothing
lies above the current folder. An absolute path starts in a folder of its own.
-/

namespace DeferredReward

/-- A file with its content, or a folder. -/
inductive Node where
  /-- A file. -/
  | file (content : String)
  /-- A folder. -/
  | folder
  deriving DecidableEq, Repr

/-- The names that lead to a node. -/
abbrev Trail := List String

/-- The nodes below the current folder. -/
structure FileTree where
  /-- The nodes with the names that lead to them. -/
  nodes : List (Trail × Node)
  deriving Inhabited

namespace FileTree

/-- The tree without nodes. -/
def empty : FileTree := ⟨[]⟩

/-- The node at a trail. The two starting folders are always there. -/
def node? (tree : FileTree) (trail : Trail) : Option Node :=
  if trail = [] ∨ trail = ["/"] then some .folder
  else (tree.nodes.find? fun entry => entry.1 == trail).map Prod.snd

/-- The tree with a node at a trail. -/
def put (tree : FileTree) (trail : Trail) (node : Node) : FileTree :=
  ⟨(trail, node) :: tree.nodes.filter fun entry => entry.1 != trail⟩

/-- The folder above, which for a starting folder is itself. -/
def above (trail : Trail) : Trail := if trail = ["/"] then trail else trail.dropLast

/-- Follows names from the node at a trail. Every node that is left, even to
itself, must be a folder. -/
def follow (tree : FileTree) : Trail → List String → Except IoFault Trail
  | trail, [] => .ok trail
  | trail, name :: rest =>
    match tree.node? trail with
    | none => .error .notFound
    | some (.file _) => .error .notFolder
    | some .folder =>
      if name = "" ∨ name = "." then tree.follow trail rest
      else if name = ".." then tree.follow (above trail) rest
      else if 255 < name.utf8ByteSize then .error .nameTooLong
      else tree.follow (trail ++ [name]) rest

/-- Where a path starts, and the names it follows from there. -/
def split (path : Path) : Except IoFault (Trail × List String) :=
  if path.text.toList.contains (Char.ofNat 0) then .error .zeroCharacter
  else if path.text.isEmpty then .error .notFound
  else if 4096 ≤ path.text.utf8ByteSize then .error .nameTooLong
  else
    .ok (if path.text.startsWith "/" then ["/"] else [],
      (path.text.toList.splitOn '/').map String.ofList)

/-- The trail of a path whose last name need not exist. -/
def locate (tree : FileTree) (path : Path) : Except IoFault Trail := do
  let (start, names) ← split path
  tree.follow start names

/-- The content of the file at a path. -/
def read (tree : FileTree) (path : Path) : Except ReadFault String :=
  match tree.locate path with
  | .error cause => .error (.unopened cause)
  | .ok trail =>
    match tree.node? trail with
    | none => .error (.unopened .notFound)
    | some .folder => .error (.interrupted .isFolder)
    | some (.file content) => .ok content

/-- Why no file is written at a path that ends in a slash: such a path asks for
a folder, which is found out once the folder around it has been reached. -/
def folderFault (tree : FileTree) (path : Path) : IoFault :=
  match split path with
  | .error cause => cause
  | .ok (start, names) =>
    let outer := (names.reverse.dropWhile (· = "")).tail.reverse
    match tree.follow start (outer ++ [""]) with
    | .error cause => cause
    | .ok _ => .isFolder

/-- The tree after writing a file. A new file needs its folder. -/
def write (tree : FileTree) (path : Path) (content : String) : Except IoFault FileTree :=
  if path.text.endsWith "/" then .error (tree.folderFault path)
  else
    match tree.locate path with
    | .error cause => .error cause
    | .ok trail =>
      match tree.node? trail with
      | some .folder => .error .isFolder
      | _ => .ok (tree.put trail (.file content))

/-- The tree with one more folder, whose own folder must exist. -/
def makeFolder (tree : FileTree) (start : Trail) (names : List String) :
    Except IoFault FileTree := do
  let trail ← tree.follow start names
  match tree.node? trail with
  | some _ => .error .alreadyExists
  | none => return tree.put trail .folder

/-- Whether following the names leads to a folder. -/
def isFolder (tree : FileTree) (start : Trail) (names : List String) : Bool :=
  match tree.follow start names with
  | .ok trail => tree.node? trail == some .folder
  | .error _ => false

/-- Makes the folder that the names lead to and, where one of them is missing,
first the folders above it: those of `parts`, last to first, without the last.
An existing folder is as good as a new one. -/
def makeFoldersAt (tree : FileTree) (start : Trail) :
    (names parts : List String) → Except IoFault Unit × FileTree
  | _, [] => (.ok (), tree)
  | names, _ :: outer =>
    let settle (tree : FileTree) (cause : IoFault) : Except IoFault Unit × FileTree :=
      (if tree.isFolder start names then .ok () else .error cause, tree)
    match tree.makeFolder start names with
    | .ok tree => (.ok (), tree)
    | .error .notFound =>
      match tree.makeFoldersAt start outer.reverse outer with
      | (.error cause, tree) => (.error cause, tree)
      | (.ok (), tree) =>
        match tree.makeFolder start names with
        | .ok tree => (.ok (), tree)
        | .error cause => settle tree cause
    | .error cause => settle tree cause

/-- Makes the folder at a path and those above it; the empty path is there
already. Slashes at the end of the path say nothing. -/
def makeFolders (tree : FileTree) (path : Path) : Except IoFault Unit × FileTree :=
  if path.text.isEmpty then (.ok (), tree)
  else
    match split path with
    | .error cause => (.error cause, tree)
    | .ok (start, names) =>
      let parts := names.reverse.filter fun name => name ≠ "" ∧ name ≠ "."
      tree.makeFoldersAt start (names.reverse.dropWhile (· = "")).reverse parts

/-- The files with the paths that lead to them from the current folder. -/
def files (tree : FileTree) : List (String × String) :=
  tree.nodes.filterMap fun (trail, node) =>
    match node with
    | .file content => some ("/".intercalate trail, content)
    | .folder => none

/-- Writes a file where it can be written, and leaves the tree otherwise. -/
def putFile (path : Path) (content : String) : StateM FileTree (Except IoFault Unit) := do
  match (← get).write path content with
  | .ok tree => set tree; return .ok ()
  | .error cause => return .error cause

/-- Programs over a tree use its operations. Nothing is held back from a tree. -/
instance : FileSystem (StateM FileTree) where
  read path := do return (← get).read path
  create path := putFile path ""
  pass := putFile
  settle _ := return .ok ()
  makeFolders path := do
    let (result, tree) := (← get).makeFolders path
    set tree
    return result

end FileTree

end DeferredReward
