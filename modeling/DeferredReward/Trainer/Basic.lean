import DeferredReward.Config.Validation
import DeferredReward.Exploration
import DeferredReward.Network.Drawn
import DeferredReward.Network.Trainable
import DeferredReward.Optimizer
import DeferredReward.StagingArea
import DeferredReward.Snapshot.Store

/-!
# The trainer

A trainer owns two networks of one architecture: the policy, which is trained
and asked for probabilities, and the target, which follows it slowly and says
what to expect. Scored observations are staged, revised once the outcome of
their episode is known, and committed to the memory that batches are drawn from.

This module holds the trainer's state, how it is built from a configuration and
the operations that do not train.
-/

namespace DeferredReward

/-- A trainer of networks of type `ν` over numbers of type `α`. -/
structure Trainer (ν : Type) (α : Type) where
  /-- What the run was told. -/
  config : Config α
  /-- The network that is trained. -/
  policy : ν
  /-- The network that follows it. -/
  target : ν
  /-- The optimizer of the policy. -/
  optimizer : Optimizer α
  /-- The transitions that batches are drawn from. -/
  memory : ReplayMemory α
  /-- The transitions that wait for their outcome. -/
  staging : StagingArea α
  /-- The number of executed steps. -/
  epoch : UInt64

/-- Why a trainer could not be built. -/
inductive BuildError (α : Type) where
  /-- The configuration is not accepted. -/
  | config (cause : InvalidSetting α)
  /-- The snapshot to start from could not be used. -/
  | snapshot (cause : SnapshotError)
  /-- The target network refuses the parameters of the policy. -/
  | network (cause : NetworkError)

/-- The probability that stands for an undefined output. -/
def evenChance {α : Type} [OfScientific α] : α := 0.5

/-- The probability that a network output stands for: an undefined output is
neutral, any other is moved into the interval from zero to one. -/
def asProbability {α : Type} [Arithmetic α] (output : α) : α :=
  if Arithmetic.isNaN output then evenChance else Arithmetic.clamp 0 1 output

namespace Trainer

variable {ν α : Type} [Analysis α] [Trainable ν α]

/-- The trainer of an accepted configuration around a policy that is ready to
start: both networks have its parameters, everything else is empty. -/
def start (config : Config α) (policy : ν) :
    Except Fault (Except (BuildError α) (Trainer ν α)) := do
  match ← Trainable.install policy (Trainable.parameters policy) with
  | .error cause => return .error (.network cause)
  | .ok target => return .ok {
      config := config
      policy := policy
      target := target
      optimizer := { Optimizer.ofRate config.learningRate with keepsPeak := true }
      memory := .ofSeed config.memorySize.toNat config.seed
      staging := .ofLength (Trainable.inputSize? policy)
      epoch := 0 }

/-- The trainer around a network, which first takes the parameters of the
snapshot that the configuration names, if it names one to start from. -/
def build {m : Type → Type} [Monad m] [SnapshotStore m α] (config : Config α) (network : ν) :
    m (Except Fault (Except (BuildError α) (Trainer ν α))) := do
  match config.loadModel, config.loadPath with
  | true, some path =>
    match ← SnapshotStore.load path with
    | .error cause => return .ok (.error (.snapshot cause))
    | .ok parameters =>
      match Trainable.install network parameters with
      | .error fault => return .error fault
      | .ok (.error cause) => return .ok (.error (.snapshot (.unfit cause)))
      | .ok (.ok policy) => return start config policy
  | _, _ => return start config network

/-- The trainer of a configuration around a given network. -/
def ofNetwork {m : Type → Type} [Monad m] [SnapshotStore m α] (config : Config α) (network : ν) :
    m (Except Fault (Except (BuildError α) (Trainer ν α))) :=
  match config.validate with
  | .error cause => return .ok (.error (.config cause))
  | .ok () => build config network

/-- The trainer of a configuration around the predictor that it describes, with
parameters drawn from its seed. -/
def ofConfig {m : Type → Type} [Monad m] [SnapshotStore m α] (config : Config α) :
    m (Except Fault (Except (BuildError α) (Trainer (Network α) α))) :=
  match config.validate with
  | .error cause => return .ok (.error (.config cause))
  | .ok () =>
    match config.inputSize with
    | none => return .ok (.error (.config ⟨.inputSize, .requiredToBuild⟩))
    | some inputSize =>
      build config (Network.drawPredictor inputSize.toNat
        (config.hiddenSizes.map UInt64.toNat) config.hiddenActivation
        (.ofSeed config.seed)).1

/-- The probability that the policy predicts for an observation: its first
output, made a probability; an output without elements is undefined. -/
def predict (t : Trainer ν α) (features : Array α) : Except Fault (Except NetworkError α) := do
  match ← Trainable.predict t.policy (Matrix.row features) with
  | .error cause => return .error cause
  | .ok output =>
    return .ok (match output.data[0]? with
      | some first => asProbability first
      | none => evenChance)

/-- The trainer with one more staged transition. -/
def stage (t : Trainer ν α) (transition : Transition α) :
    Except FeatureMismatch (Trainer ν α) := do
  return { t with staging := ← t.staging.stage transition }

/-- The trainer with the staged rewards moved towards an outcome. -/
def revise (t : Trainer ν α) (outcome : α) : Trainer ν α :=
  { t with staging := t.staging.revise outcome t.config.rewardWeight }

/-- The number of staged transitions, and the trainer with them in the memory. -/
def commit (t : Trainer ν α) : Nat × Trainer ν α :=
  let (staging, memory) := t.staging.commit t.memory
  (t.staging.size, { t with staging, memory })

/-- The trainer without staged transitions. -/
def clear (t : Trainer ν α) : Trainer ν α := { t with staging := t.staging.clear }

/-- The trainer with a transition pushed into the memory. -/
def push (t : Trainer ν α) (transition : Transition α) : Trainer ν α :=
  { t with memory := t.memory.push transition }

/-- Whether training has gone beyond its last epoch. -/
def isOver (t : Trainer ν α) : Bool := t.config.epochs < t.epoch

/-- The exploration rate after the steps executed so far. -/
def exploration (t : Trainer ν α) : α :=
  Exploration.rate ⟨t.config.exploreStart, t.config.exploreStop, t.config.exploreDecay⟩ t.epoch

/-- Saves the policy's parameters in the output folder, in a file named for the
epoch, and tells its path. -/
def save {m : Type → Type} [Monad m] [SnapshotStore m α] (t : Trainer ν α) :
    m (Except SnapshotError Path) := do
  let folder := t.config.outputPath
  match ← SnapshotStore.makeFolders α folder with
  | .error cause => return .error (.file folder cause)
  | .ok () =>
    let path := folder.join s!"epoch_{t.epoch}.json"
    match ← SnapshotStore.save path (Trainable.parameters t.policy) with
    | .error cause => return .error cause
    | .ok () => return .ok path

end Trainer

end DeferredReward
