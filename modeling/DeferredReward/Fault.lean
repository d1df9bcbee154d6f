import DeferredReward.Matrix.Basic

/-!
# Faults

A fault is a computation that has no result because its operands do not fit:
unlike an error, which is an answer to the caller, it ends the run. Each
constructor names one such situation with the operands that brought it about.
None of them is checked for: they are what the checks before have to rule out.
-/

namespace DeferredReward

/-- The ways in which an operation can be impossible. -/
inductive Fault where
  /-- A matrix product whose inner sizes differ. -/
  | product (left right : Shape)
  /-- Two shapes that no repetition of rows or columns makes equal. -/
  | broadcast (left right : Shape)
  /-- A clamp to an interval whose lower end is not at most its upper end. -/
  | emptyInterval
  /-- A parameter that changed its shape since the optimizer first saw it. -/
  | momentShape (name : String)
  /-- A name that is looked up in a catalog without it. -/
  | missingName (name : String)
  /-- A count of steps that its machine integer cannot hold. -/
  | countOverflow
  /-- A remainder by an interval of zero epochs. -/
  | zeroInterval
  deriving DecidableEq, Repr

end DeferredReward
