import DeferredReward.Loss
import DeferredReward.Proofs.Fault
import DeferredReward.Proofs.Matrix.Operations

/-!
# The loss of matrices of one shape

Expected and predicted values of one shape have a loss, and its slope has that
shape too.
-/

namespace DeferredReward

variable {α : Type} [Arithmetic α]

/-- The deviations of predicted values from expected ones of the same shape. -/
def deviations (expected predicted : Matrix α) : Matrix α :=
  Matrix.zip (fun p e => p - e) predicted expected

/-- The mean loss of predicted values for expected ones of the same shape. -/
def meanLoss (expected predicted : Matrix α) : α :=
  ((deviations expected predicted).map smoothDistance).total / NatCast.natCast predicted.size

/-- The slope of the mean loss for expected values of the same shape. -/
def meanLossSlope (expected predicted : Matrix α) : Matrix α :=
  (deviations expected predicted).map fun d =>
    Arithmetic.clamp (-1) 1 d / NatCast.natCast (max expected.size 1)

section OneShape

variable {expected predicted : Matrix α} (h : expected.shape = predicted.shape)

include h

/-- Matrices of one shape have a mean loss, if they have elements. -/
theorem smoothLoss_eq : smoothLoss expected predicted =
    .ok (if predicted.size = 0 then none else some (meanLoss expected predicted)) :=
  bind_eq_of_ok (Matrix.combine_of_shape_eq _ h)

/-- Matrices of one shape have a slope of the loss. -/
theorem smoothLossSlope_eq :
    smoothLossSlope expected predicted = .ok (meanLossSlope expected predicted) :=
  bind_eq_of_ok (Matrix.combine_of_shape_eq _ h)

end OneShape

end DeferredReward
