import DeferredReward.Network.Basic

/-!
# What a trainer asks of a network

A trainer needs batches handed through a network with and without keeping what
the backward pass needs, the gradients of the last kept pass, and the
parameters out and in. Nothing else is known of the network; a stack of layers
is one instance.
-/

namespace DeferredReward

/-- Networks of type `ν` that can be trained to predict with numbers of type `α`. -/
class Trainable (ν : Type) (α : outParam Type) where
  /-- The output for a batch, and the network ready for a backward pass. -/
  forward : ν → Matrix α → Except Fault (Except NetworkError (Matrix α) × ν)
  /-- The output for a batch. -/
  predict : ν → Matrix α → Except Fault (Except NetworkError (Matrix α))
  /-- The gradients of all parameters for an error of the last forward pass's
  output, and the network after the pass. -/
  backward : ν → Matrix α → Except Fault (Except NetworkError (Parameters α) × ν)
  /-- The parameters. -/
  parameters : ν → Parameters α
  /-- The network with the given parameters, unless it refuses them. -/
  install : ν → Parameters α → Except Fault (Except NetworkError ν)
  /-- The network after it has refused parameters, which need not leave it as it was. -/
  refusing : ν → Parameters α → ν := fun network _ => network
  /-- The number of features of an observation, when only one will do. -/
  inputSize? : ν → Option Nat := fun _ => none

instance {α : Type} [Zero α] [Add α] [Mul α] : Trainable (Network α) α where
  forward := Network.forward
  predict := Network.predict
  backward := Network.backward
  parameters := Network.parameters
  install := Network.install
  inputSize? := Network.inputSize?

end DeferredReward
