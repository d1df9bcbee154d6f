import DeferredReward.Arithmetic

/-!
# The exploration rate

The rate decays exponentially from a start towards an end. The schedule only
tells the rate; whether to explore is the caller's choice.
-/

namespace DeferredReward

/-- A rate that decays from `start` towards `stop`. -/
structure Exploration (α : Type) where
  /-- The rate before the first step. -/
  start : α
  /-- The rate that is approached. -/
  stop : α
  /-- The number of steps in which the distance shrinks by the factor `exp (-1)`. -/
  decay : α

/-- The rate after a number of steps. -/
def Exploration.rate {α : Type} [Analysis α] (e : Exploration α) (steps : UInt64) : α :=
  e.stop + (e.start - e.stop) * Analysis.exp (-NatCast.natCast steps.toNat / e.decay)

end DeferredReward
