import DeferredReward.Arithmetic
import DeferredReward.ReplayMemory

/-!
# Transitions waiting for their outcome

The transitions of an episode are staged with provisional rewards. Once the
outcome is known the rewards are revised towards it, and the transitions are
committed to the memory in their order. All staged feature vectors have one
length, which is given or fixed by the first one ever staged, and outlives the
transitions.
-/

namespace DeferredReward

/-- Staged transitions and the length that their feature vectors must have. -/
structure StagingArea (α : Type) where
  /-- The staged transitions in order. -/
  transitions : Array (Transition α)
  /-- The required length, once it is fixed. -/
  featureLength : Option Nat

/-- A feature vector whose length does not suit the staged ones. -/
structure FeatureMismatch where
  /-- The required length. -/
  expected : Nat
  /-- The length of the vector. -/
  found : Nat
  deriving DecidableEq, Repr

/-- The text of the error. -/
def FeatureMismatch.message (e : FeatureMismatch) : String :=
  s!"feature of length {e.found} does not match the staged length {e.expected}"

namespace StagingArea

variable {α : Type}

/-- The empty area for a required length. -/
def ofLength (featureLength : Option Nat) : StagingArea α := ⟨#[], featureLength⟩

/-- The number of staged transitions. -/
def size (s : StagingArea α) : Nat := s.transitions.size

/-- The area with one more transition, when its feature vector has the required length. -/
def stage (s : StagingArea α) (t : Transition α) : Except FeatureMismatch (StagingArea α) :=
  let expected := s.featureLength.getD t.features.size
  if expected = t.features.size then
    .ok ⟨s.transitions.push t, some expected⟩
  else .error ⟨expected, t.features.size⟩

/-- A reward moved towards the outcome: `weight` of it stays. -/
def revised [Arithmetic α] (weight outcome reward : α) : α :=
  weight * reward + (1 - weight) * outcome

/-- The area with every reward moved towards the outcome. -/
def revise [Arithmetic α] (s : StagingArea α) (outcome weight : α) : StagingArea α :=
  { s with transitions := s.transitions.map fun t =>
      t.setReward (revised weight outcome t.reward) }

/-- The area without its transitions. -/
def clear (s : StagingArea α) : StagingArea α := { s with transitions := #[] }

/-- The emptied area, and the memory with the staged transitions pushed in order. -/
def commit (s : StagingArea α) (memory : ReplayMemory α) : StagingArea α × ReplayMemory α :=
  (s.clear, memory.pushAll s.transitions.toList)

end StagingArea

end DeferredReward
