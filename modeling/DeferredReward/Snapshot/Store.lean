import DeferredReward.Network.Error
import DeferredReward.Snapshot.Text
import DeferredReward.Storage.Basic

/-!
# Where snapshots are kept

A trainer saves the parameters of its network under a path and loads them when
it starts warm. `SnapshotStore` is what it needs for that; on a file system the
store writes and reads the text of snapshots.
-/

namespace DeferredReward

/-- Why the content of a snapshot could not be had. -/
inductive ContentFault where
  /-- The content could not be read or passed on to its end. -/
  | interrupted (cause : IoFault)
  /-- The text is not that of a snapshot. -/
  | unreadable (error : Json.ReadError)

/-- The text of the fault. -/
def ContentFault.message : ContentFault → String
  | interrupted cause => cause.message
  | unreadable error => error.message

/-- Why a snapshot could not be saved or loaded. -/
inductive SnapshotError where
  /-- The file or its folder could not be opened, made or completed. -/
  | file (path : Path) (cause : IoFault)
  /-- The content is not that of a snapshot. -/
  | content (path : Path) (cause : ContentFault)
  /-- The snapshot is not one of the network. -/
  | unfit (cause : NetworkError)

/-- The text of the error. -/
def SnapshotError.message : SnapshotError → String
  | file path cause => s!"snapshot io error on {path.text}: {cause.message}"
  | content path cause => s!"snapshot {path.text} is malformed: {cause.message}"
  | unfit cause => s!"snapshot does not fit the network: {cause.message}"

/-- A place for snapshots of parameters over `α`. -/
class SnapshotStore (m : Type → Type) (α : Type) where
  /-- Makes the folder for snapshots and those above it. -/
  makeFolders : Path → m (Except IoFault Unit)
  /-- Keeps the parameters under a path. -/
  save : Path → Parameters α → m (Except SnapshotError Unit)
  /-- The parameters kept under a path. -/
  load : Path → m (Except SnapshotError (Parameters α))

/-- Snapshots as files. -/
instance {m : Type → Type} [Monad m] [FileSystem m] : SnapshotStore m Float where
  makeFolders := FileSystem.makeFolders
  save path parameters := do
    match ← FileSystem.write path (Snapshot.write parameters) with
    | .ok () => return .ok ()
    | .error (.unmade cause) => return .error (.file path cause)
    | .error (.interrupted cause) => return .error (.content path (.interrupted cause))
    | .error (.unsettled cause) => return .error (.file path cause)
  load path := do
    match ← FileSystem.read path with
    | .error (.unopened cause) => return .error (.file path cause)
    | .error (.interrupted cause) => return .error (.content path (.interrupted cause))
    | .ok text =>
      match Snapshot.read text with
      | .ok parameters => return .ok parameters
      | .error error => return .error (.content path (.unreadable error))

end DeferredReward
