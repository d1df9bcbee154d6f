import DeferredReward.Matrix.Stack

/-!
# Errors of a network

What a network or a parameter catalog answers when a request does not suit it.
-/

namespace DeferredReward

/-- The reasons for which a network refuses a request. -/
inductive NetworkError where
  /-- The input has another number of columns than the first dense layer takes. -/
  | inputWidth (expected found : Nat)
  /-- A named parameter is absent or has another shape. -/
  | unsuitableParameter (name : String)
  /-- Two parameter catalogs hold different numbers of parameters. -/
  | differentSizes (expected found : Nat)
  /-- No forward pass has left its inputs for this backward pass. -/
  | noForwardPass
  /-- The rows of a batch do not form a matrix. -/
  | unstackable (cause : StackError)
  deriving DecidableEq, Repr

/-- The text of the error. -/
def NetworkError.message : NetworkError → String
  | inputWidth expected found =>
    s!"network expects {expected} input features, got {found}"
  | unsuitableParameter name => s!"parameter `{name}` is missing or has a mismatched shape"
  | differentSizes expected found =>
    s!"parameter dictionaries differ in size: {expected} vs {found}"
  | noForwardPass => "backward pass requested without a preceding forward pass"
  | unstackable cause => cause.message

end DeferredReward
