import DeferredReward.Matrix.Broadcast
import DeferredReward.Matrix.Product
import DeferredReward.Network.Activation
import DeferredReward.Network.Error

/-!
# Layers

A layer maps a batch, one observation a row, to a batch. A forward pass leaves
the input in the layer; a backward pass takes it out again, turns the error of
the output into the error of the input, and records in a dense layer what the
error says about its weights and bias.

The results nest: a fault ends the run and leaves no layer behind, while an
error is an answer that comes with the layer as it now is.
-/

namespace DeferredReward

variable {α : Type}

/-- A dense layer `x ↦ x · weights + bias`. -/
structure Dense (α : Type) where
  /-- The factor applied from the right; one row for each input feature. -/
  weights : Matrix α
  /-- The summand, usually one row that serves the whole batch. -/
  bias : Matrix α
  /-- The gradient of the weights from the last backward pass. -/
  weightsGradient : Matrix α
  /-- The gradient of the bias from the last backward pass. -/
  biasGradient : Matrix α
  /-- The input of the last forward pass, until a backward pass takes it. -/
  input : Option (Matrix α)

/-- One step of a network. -/
inductive Layer (α : Type) where
  /-- A dense layer. -/
  | dense (layer : Dense α)
  /-- A function of each element, with the input of the last forward pass. -/
  | activation (curve : Pointwise α) (input : Option (Matrix α))

namespace Dense

/-- The dense layer of given weights and bias, before any pass. -/
def ofParts [Zero α] (weights bias : Matrix α) : Dense α where
  weights := weights
  bias := bias
  weightsGradient := Matrix.zeros weights.shape
  biasGradient := Matrix.zeros bias.shape
  input := none

/-- The output for a batch. -/
def predict [Zero α] [Add α] [Mul α] (layer : Dense α) (x : Matrix α) :
    Except Fault (Matrix α) := do
  Matrix.combine (· + ·) (← x.mul layer.weights) layer.bias

/-- The backward pass. The input is taken out of the layer first. -/
def backward [Zero α] [Add α] [Mul α] (layer : Dense α) (error : Matrix α) :
    Except Fault (Except NetworkError (Matrix α) × Dense α) :=
  match layer.input with
  | none => .ok (.error .noForwardPass, layer)
  | some x => do
    let inputError ← error.mul layer.weights.transpose
    let weightsGradient ← x.transpose.mul error
    return (.ok inputError,
      { layer with input := none, weightsGradient, biasGradient := error.columnSums })

end Dense

namespace Layer

/-- An activation layer before any pass. -/
def ofCurve (curve : Pointwise α) : Layer α := .activation curve none

/-- The output for a batch; the layer is left as it is. -/
def predict [Zero α] [Add α] [Mul α] : Layer α → Matrix α → Except Fault (Matrix α)
  | dense layer, x => layer.predict x
  | activation curve _, x => .ok (x.map curve.value)

/-- The layer holding `x` as the input of its last forward pass. -/
def remember : Layer α → Matrix α → Layer α
  | dense layer, x => .dense { layer with input := some x }
  | activation curve _, x => .activation curve (some x)

/-- The input that a forward pass has left in the layer. -/
def input? : Layer α → Option (Matrix α)
  | dense layer => layer.input
  | activation _ input => input

/-- The output for a batch, and the layer with the batch kept for the backward pass. -/
def forward [Zero α] [Add α] [Mul α] (layer : Layer α) (x : Matrix α) :
    Except Fault (Matrix α × Layer α) := do
  let y ← layer.predict x
  return (y, layer.remember x)

/-- The error of the input for an error of the output, and the layer without
the kept input and with its gradients renewed. -/
def backward [Zero α] [Add α] [Mul α] :
    Layer α → Matrix α → Except Fault (Except NetworkError (Matrix α) × Layer α)
  | dense layer, error => do
    let (inputError, layer) ← layer.backward error
    return (inputError, .dense layer)
  | activation curve none, _ => .ok (.error .noForwardPass, .activation curve none)
  | activation curve (some x), error => do
    let inputError ← Matrix.combine (· * ·) (x.map curve.slope) error
    return (.ok inputError, .activation curve none)

/-- The named parameters of the layer. -/
def parameters : Layer α → List (String × Matrix α)
  | dense layer => [("weight", layer.weights), ("bias", layer.bias)]
  | activation _ _ => []

/-- The gradients under the names of their parameters. -/
def gradients : Layer α → List (String × Matrix α)
  | dense layer => [("weight", layer.weightsGradient), ("bias", layer.biasGradient)]
  | activation _ _ => []

/-- The layer with the parameters that `find?` knows put in the place of its own. -/
def withParameters (find? : String → Option (Matrix α)) : Layer α → Layer α
  | dense layer => .dense { layer with
      weights := (find? "weight").getD layer.weights
      bias := (find? "bias").getD layer.bias }
  | layer => layer

/-- The layer with its parameters overwritten by what `fetch` has for their names. -/
def overwrite (fetch : String → Except Fault (Matrix α)) : Layer α → Except Fault (Layer α)
  | dense layer => do
    let weights ← fetch "weight"
    let bias ← fetch "bias"
    return .dense { layer with weights, bias }
  | layer => .ok layer

/-- The number of features that a dense layer takes. -/
def inputSize? : Layer α → Option Nat
  | dense layer => some layer.weights.rows
  | activation _ _ => none

/-- The layer with the named parameter overwritten by `value`, whose single
rows and columns are repeated to fill it; nothing when there is no such parameter. -/
def assign? [Zero α] (layer : Layer α) (name : String) (value : Matrix α) :
    Option (Except Fault (Layer α)) :=
  (layer.parameters.find? fun entry => entry.1 == name).map fun entry =>
    if Matrix.joinShape? entry.2.shape value.shape = some entry.2.shape then do
      let filled ← Matrix.combine (fun _ new => new) entry.2 value
      return layer.withParameters fun other => if other = name then some filled else none
    else .error (.broadcast entry.2.shape value.shape)

end Layer

end DeferredReward
