/-!
# Transitions

A transition is one scored observation: the feature vector, the probability
that was predicted for it and the reward assigned to it.
-/

namespace DeferredReward

/-- A scored observation. -/
structure Transition (α : Type) where
  /-- The observed feature vector. -/
  features : Array α
  /-- The probability predicted for it. -/
  probability : α
  /-- The reward assigned to it. -/
  reward : α

/-- The same observation with another reward. -/
def Transition.setReward {α : Type} (t : Transition α) (reward : α) : Transition α :=
  { t with reward }

end DeferredReward
