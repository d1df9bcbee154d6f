import DeferredReward.BlockAverage
import DeferredReward.Trainer.Step

/-!
# Synthetic episodes

The program trains on episodes that it makes up. An observation has features
drawn uniformly from the interval from zero to one; an episode is suspicious
when the mean of its features is above one half. Every observation is scored by
the policy and staged with that score as its reward; after the episode the
rewards are revised towards the outcome, the transitions are committed, and one
training step is made.
-/

namespace DeferredReward.CommandLine

/-- Why a run ended before its time. -/
inductive RunError where
  /-- An observation does not suit the network. -/
  | prediction (cause : NetworkError)
  /-- An observation does not suit the staged ones. -/
  | staging (cause : FeatureMismatch)
  /-- A step could not be executed. -/
  | step (cause : StepError)

/-- The text of the error. -/
def RunError.message : RunError → String
  | prediction cause => cause.message
  | staging cause => cause.message
  | step cause => cause.message

/-- A run under way. -/
structure Run (α : Type) where
  /-- The trainer. -/
  trainer : Trainer (Network α) α
  /-- The source of observations. -/
  generator : Generator
  /-- The losses of the executed steps, last first. -/
  losses : List α

variable {α : Type} [Analysis α]

/-- The outcome of an episode: one when the mean of its features, each
observation counting the same, is above one half, and zero otherwise. -/
def outcome (observed : List (Array α)) : α :=
  let means := observed.map fun features =>
    if features.isEmpty then 0 else laneSum features.toList / NatCast.natCast features.size
  let overall := sumFrom means / NatCast.natCast (max observed.length 1)
  if Arithmetic.less 0.5 overall then 1 else 0

/-- Observes `count` drawn features; `seen` holds those before, last first. -/
def observe (width : Nat) : (count : Nat) → (seen : List (Array α)) → Run α →
    Except Fault (Except RunError (List (Array α) × Run α))
  | 0, seen, run => .ok (.ok (seen.reverse, run))
  | count + 1, seen, run => do
    let (features, generator) := run.generator.reals 0 1 width
    match ← run.trainer.predict features with
    | .error cause => return .error (.prediction cause)
    | .ok probability =>
      match run.trainer.stage ⟨features, probability, probability⟩ with
      | .error cause => return .error (.staging cause)
      | .ok trainer => observe width count (features :: seen) { run with trainer, generator }

/-- One episode without its training step. -/
def playEpisode (width length : Nat) (run : Run α) :
    Except Fault (Except RunError (Run α)) := do
  match ← observe width length [] run with
  | .error cause => return .error cause
  | .ok (observed, run) =>
    return .ok { run with trainer := (run.trainer.revise (outcome observed)).commit.2 }

/-- Episodes, each followed by a training step, until there have been enough or
training has ended. -/
def playEpisodes {m : Type → Type} [Monad m] [SnapshotStore m α] (width length : Nat) :
    (episodes : Nat) → Run α → m (Except Fault (Except RunError (Run α)))
  | 0, run => return .ok (.ok run)
  | episodes + 1, run => do
    match playEpisode width length run with
    | .error fault => return .error fault
    | .ok (.error cause) => return .ok (.error cause)
    | .ok (.ok run) =>
      match ← run.trainer.optimize with
      | .error fault => return .error fault
      | .ok (.error cause, _) => return .ok (.error (.step cause))
      | .ok (.ok stepOutcome, trainer) =>
        let losses := match stepOutcome with
          | .executed _ loss _ => loss :: run.losses
          | .skipped _ _ => run.losses
        let run := { run with trainer, losses }
        if trainer.isOver then return .ok (.ok run)
        else playEpisodes width length episodes run

end DeferredReward.CommandLine
