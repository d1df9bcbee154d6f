import DeferredReward.Network.Layer
import DeferredReward.Parameters

/-!
# Networks

A network is a list of layers. `predict` hands a batch through them, `forward`
does the same and leaves each layer its input, `backward` goes through the
layers from the last to the first. The parameters of layer `i` are named
`layers.i.weight` and `layers.i.bias`.
-/

namespace DeferredReward

/-- A stack of layers, the first one applied first. -/
structure Network (α : Type) where
  /-- The layers in the order of application. -/
  layers : List (Layer α)

namespace Network

variable {α : Type}

/-- The name of a parameter of the layer with that position. -/
def parameterName (position : Nat) (name : String) : String := s!"layers.{position}.{name}"

/-- The number of features the network takes: that of its first dense layer.
A network without dense layers takes any number. -/
def inputSize? (network : Network α) : Option Nat := network.layers.findSome? Layer.inputSize?

/-- The error for an input of the wrong width. -/
def inputError? (network : Network α) (x : Matrix α) : Option NetworkError :=
  match network.inputSize? with
  | some expected => if expected = x.cols then none else some (.inputWidth expected x.cols)
  | none => none

/-- The matrices that `select` names in each layer, under their full names. -/
def collect (select : Layer α → List (String × Matrix α)) (network : Network α) : Parameters α :=
  Catalog.ofList (network.layers.zipIdx.flatMap fun (layer, position) =>
    (select layer).map fun (name, value) => (parameterName position name, value))

/-- The parameters of all layers in order. -/
def parameters (network : Network α) : Parameters α := network.collect Layer.parameters

/-- The gradients of all layers, under the names of the parameters. -/
def gradients (network : Network α) : Parameters α := network.collect Layer.gradients

section Passes

variable [Zero α] [Add α] [Mul α]

/-- A batch handed through layers. -/
def predictThrough : List (Layer α) → Matrix α → Except Fault (Matrix α)
  | [], x => .ok x
  | layer :: rest, x => do predictThrough rest (← layer.predict x)

/-- A batch handed through layers that keep their inputs. -/
def forwardThrough : List (Layer α) → Matrix α → Except Fault (Matrix α × List (Layer α))
  | [], x => .ok (x, [])
  | layer :: rest, x => do
    let (y, layer) ← layer.forward x
    let (z, rest) ← forwardThrough rest y
    return (z, layer :: rest)

/-- An output error handed back through layers, last layer first. The layers
behind a layer that refuses keep what their own pass did to them. -/
def backwardThrough : List (Layer α) → Matrix α →
    Except Fault (Except NetworkError (Matrix α) × List (Layer α))
  | [], error => .ok (.ok error, [])
  | layer :: rest, error => do
    match ← backwardThrough rest error with
    | (.error refusal, rest) => return (.error refusal, layer :: rest)
    | (.ok error, rest) =>
      let (result, layer) ← layer.backward error
      return (result, layer :: rest)

/-- The output for a batch; the network is left as it is. -/
def predict (network : Network α) (x : Matrix α) :
    Except Fault (Except NetworkError (Matrix α)) :=
  match network.inputError? x with
  | some e => .ok (.error e)
  | none => do return .ok (← predictThrough network.layers x)

/-- The output for a batch, and the network ready for a backward pass. -/
def forward (network : Network α) (x : Matrix α) :
    Except Fault (Except NetworkError (Matrix α) × Network α) :=
  match network.inputError? x with
  | some e => .ok (.error e, network)
  | none => do
    let (y, layers) ← forwardThrough network.layers x
    return (.ok y, ⟨layers⟩)

/-- The gradients of all parameters for an error of the last forward pass's output. -/
def backward (network : Network α) (error : Matrix α) :
    Except Fault (Except NetworkError (Parameters α) × Network α) := do
  match ← backwardThrough network.layers error with
  | (.error refusal, layers) => return (.error refusal, ⟨layers⟩)
  | (.ok _, layers) => return (.ok (Network.mk layers).gradients, ⟨layers⟩)

end Passes

/-- Layers from a position on, overwritten by the given parameters. -/
def installFrom (given : Parameters α) : (position : Nat) → List (Layer α) →
    Except Fault (List (Layer α))
  | _, [] => .ok []
  | position, layer :: rest => do
    let layer ← layer.overwrite fun name => given.fetch (parameterName position name)
    return layer :: (← installFrom given (position + 1) rest)

/-- The network with the given values as its parameters, when they are as many
and each of its own is among them with its shape. -/
def install (network : Network α) (given : Parameters α) :
    Except Fault (Except NetworkError (Network α)) :=
  let own := network.parameters
  if own.size = given.size then
    match own.mismatch? given with
    | some name => .ok (.error (.unsuitableParameter name))
    | none => do return .ok ⟨← installFrom given 0 network.layers⟩
  else .ok (.error (.differentSizes own.size given.size))

end Network

end DeferredReward
