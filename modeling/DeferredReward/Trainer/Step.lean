import DeferredReward.Loss
import DeferredReward.Parameters.Blend
import DeferredReward.Trainer.Basic

/-!
# The training step

A step draws a batch, compares what the policy predicts with what is to be
expected, that is, with the reward plus the discounted prediction of the target,
and moves the policy against the slope of the loss; then the target follows.
`learn` is the whole step but for the checkpoint; `optimize` adds the checkpoint
that is due every so many epochs, and whose failure is reported without
affecting training.

Every stage returns the trainer as it leaves it, also with an error: a drawn
batch has moved the memory's generator on, whatever happens to it.
-/

namespace DeferredReward

/-- Why a step could not be executed. -/
inductive StepError where
  /-- The memory cannot fill the batch. -/
  | memory (cause : TooFewTransitions)
  /-- The batch or its gradients do not suit the networks. -/
  | network (cause : NetworkError)

/-- The text of the error. -/
def StepError.message : StepError → String
  | memory cause => cause.message
  | network cause => cause.message

/-- What became of a checkpoint. -/
inductive Checkpoint where
  /-- It is saved under the path. -/
  | saved (path : Path)
  /-- It could not be saved. -/
  | failed (cause : SnapshotError)

/-- What a step has learned, before any checkpoint. -/
inductive Progress (α : Type) where
  /-- The memory holds fewer transitions than a batch. -/
  | skipped (available required : Nat)
  /-- The step was executed, with this loss before it. -/
  | executed (epoch : UInt64) (loss : α)

/-- The result of a step. -/
inductive StepReport (α : Type) where
  /-- The memory holds fewer transitions than a batch. -/
  | skipped (available required : Nat)
  /-- The step was executed; a checkpoint was due or not. -/
  | executed (epoch : UInt64) (loss : α) (checkpoint : Option Checkpoint)

namespace Trainer

variable {ν α : Type} [Analysis α] [Trainable ν α]

/-- The largest gradient element that is used as it is. -/
def gradientBound : α := 100.0

/-- The features and the rewards of a batch as matrices, one transition a row. -/
def batchOf (transitions : List (Transition α)) : Except StackError (Matrix α × Matrix α) := do
  let features ← Matrix.ofRows (transitions.map Transition.features).toArray
  return (features, Matrix.column (transitions.map Transition.reward).toArray)

/-- The features and rewards of a drawn batch. -/
def draw (t : Trainer ν α) : Except StepError (Matrix α × Matrix α) × Trainer ν α :=
  let (drawn, memory) := t.memory.sample t.config.batchSize.toNat
  let t := { t with memory }
  match drawn with
  | .error cause => (.error (.memory cause), t)
  | .ok transitions =>
    match batchOf transitions with
    | .error cause => (.error (.network (.unstackable cause)), t)
    | .ok batch => (.ok batch, t)

/-- The loss of the policy on a batch and its clamped gradients. -/
def evaluate (t : Trainer ν α) (features rewards : Matrix α) :
    Except Fault (Except NetworkError (α × Parameters α) × Trainer ν α) := do
  let (predicted, policy) ← Trainable.forward t.policy features
  let t := { t with policy }
  match predicted with
  | .error cause => return (.error cause, t)
  | .ok predicted =>
    match ← Trainable.predict t.target features with
    | .error cause => return (.error cause, t)
    | .ok ahead =>
      let expected ← Matrix.combine (· + ·) (ahead.map (· * t.config.discount)) rewards
      let loss := (← smoothLoss expected predicted).getD 0
      let slope ← smoothLossSlope expected predicted
      let (gradients, policy) ← Trainable.backward t.policy slope
      let t := { t with policy }
      match gradients with
      | .error cause => return (.error cause, t)
      | .ok gradients => return (.ok (loss, ← gradients.clampWithin gradientBound), t)

/-- The policy moved against gradients, and the target moved after it. -/
def descend (t : Trainer ν α) (gradients : Parameters α) :
    Except Fault (Except NetworkError Unit × Trainer ν α) := do
  let (moved, optimizer) ← t.optimizer.step (Trainable.parameters t.policy) gradients
  let t := { t with optimizer }
  match moved with
  | .error cause => return (.error cause, t)
  | .ok parameters =>
    match ← Trainable.install t.policy parameters with
    | .error cause =>
      return (.error cause, { t with policy := Trainable.refusing t.policy parameters })
    | .ok policy =>
      let t := { t with policy }
      match Parameters.blend parameters (Trainable.parameters t.target)
          t.config.blendWeight with
      | .error cause => return (.error cause, t)
      | .ok followed =>
        match ← Trainable.install t.target followed with
        | .error cause =>
          return (.error cause, { t with target := Trainable.refusing t.target followed })
        | .ok target => return (.ok (), { t with target })

/-- A step without its checkpoint. -/
def learn (t : Trainer ν α) : Except Fault (Except StepError (Progress α) × Trainer ν α) := do
  let required := t.config.batchSize.toNat
  if t.memory.size < required then
    return (.ok (.skipped t.memory.size required), t)
  else
    match t.draw with
    | (.error cause, t) => return (.error cause, t)
    | (.ok (features, rewards), t) =>
      match ← t.evaluate features rewards with
      | (.error cause, t) => return (.error (.network cause), t)
      | (.ok (loss, gradients), t) =>
        match ← t.descend gradients with
        | (.error cause, t) => return (.error (.network cause), t)
        | (.ok (), t) =>
          let t := { t with epoch := t.epoch + 1 }
          return (.ok (.executed t.epoch loss), t)

/-- Whether a checkpoint is due in the epoch that has been reached. -/
def checkpointDue (t : Trainer ν α) : Except Fault Bool :=
  if t.config.saveInterval = 0 then .error .zeroInterval
  else .ok (t.epoch % t.config.saveInterval == 0)

/-- A step with the checkpoint that may be due. -/
def optimize {m : Type → Type} [Monad m] [SnapshotStore m α] (t : Trainer ν α) :
    m (Except Fault (Except StepError (StepReport α) × Trainer ν α)) := do
  match t.learn with
  | .error fault => return .error fault
  | .ok (.error cause, t) => return .ok (.error cause, t)
  | .ok (.ok (.skipped available required), t) =>
    return .ok (.ok (.skipped available required), t)
  | .ok (.ok (.executed epoch loss), t) =>
    match t.checkpointDue with
    | .error fault => return .error fault
    | .ok false => return .ok (.ok (.executed epoch loss none), t)
    | .ok true =>
      let checkpoint := match ← t.save with
        | .ok path => .saved path
        | .error cause => .failed cause
      return .ok (.ok (.executed epoch loss (some checkpoint)), t)

end Trainer

end DeferredReward
