import DeferredReward.Arithmetic
import DeferredReward.Matrix.Broadcast

/-!
# The smooth absolute loss

Deviations below one count by half their square, larger ones by their distance
from one half. The loss of a batch is the mean over its elements; its slope is
the deviation clamped to one in either direction, shared among the elements.
-/

namespace DeferredReward

variable {α : Type} [Arithmetic α]

/-- The loss of one deviation. -/
def smoothDistance (d : α) : α :=
  if Arithmetic.less (Arithmetic.magnitude d) 1 then 0.5 * d * d
  else Arithmetic.magnitude d - 0.5

/-- The mean loss of predictions for expected values; none when there is no element. -/
def smoothLoss (expected predicted : Matrix α) : Except Fault (Option α) := do
  let deviations ← Matrix.combine (fun p e => p - e) predicted expected
  return if deviations.size = 0 then none
    else some ((deviations.map smoothDistance).total / NatCast.natCast deviations.size)

/-- The slope of the mean loss in each predicted element. -/
def smoothLossSlope (expected predicted : Matrix α) : Except Fault (Matrix α) := do
  let deviations ← Matrix.combine (fun p e => p - e) predicted expected
  return deviations.map fun d =>
    Arithmetic.clamp (-1) 1 d / NatCast.natCast (max expected.size 1)

end DeferredReward
