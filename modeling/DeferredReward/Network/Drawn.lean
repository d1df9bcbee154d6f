import DeferredReward.Generator.Uniform
import DeferredReward.Network.Basic

/-!
# Networks with drawn parameters

The first weights and biases of a dense layer are drawn from the interval
around zero whose half width is the reciprocal root of the number of input
features, weights before bias and row by row.
-/

namespace DeferredReward

variable {α : Type} [Analysis α]

/-- A dense layer between the given sizes with drawn parameters. -/
def Dense.draw (inputs outputs : Nat) (g : Generator) : Dense α × Generator :=
  let bound : α := 1 / Analysis.sqrt (NatCast.natCast (max inputs 1))
  let (weights, g) := g.matrix (-bound) bound ⟨inputs, outputs⟩
  let (bias, g) := g.matrix (-bound) bound ⟨1, outputs⟩
  (Dense.ofParts weights bias, g)

/-- A drawn dense layer and the given curve for each hidden size, then one
output unit under the curve of the head. -/
def Network.drawLayers (hidden head : Pointwise α) :
    (inputs : Nat) → (hiddenSizes : List Nat) → Generator → List (Layer α) × Generator
  | inputs, [], g =>
    let (last, g) := Dense.draw inputs 1 g
    ([.dense last, .ofCurve head], g)
  | inputs, size :: rest, g =>
    let (first, g) := Dense.draw inputs size g
    let (layers, g) := Network.drawLayers hidden head size rest g
    (.dense first :: .ofCurve hidden :: layers, g)

/-- The predictor of a probability: dense layers of the hidden sizes under the
chosen activation and one sigmoid unit. -/
def Network.drawPredictor (inputs : Nat) (hiddenSizes : List Nat) (activation : Activation)
    (g : Generator) : Network α × Generator :=
  let (layers, g) := Network.drawLayers activation.curve Activation.sigmoid.curve
    inputs hiddenSizes g
  (⟨layers⟩, g)

end DeferredReward
