import DeferredReward.Arithmetic
import DeferredReward.Fault
import DeferredReward.Network.Error
import DeferredReward.Parameters

/-!
# The adaptive optimizer

Adaptive moment estimation with decoupled weight decay, optionally with the
variant that divides by the largest second moment so far. Each parameter
element has three running numbers of its own, its `Moment`; a step updates them
from the element's gradient and moves the element. The only numbers that the
elements share are those of the `Schedule`, which depend on the step count.

A step is refused, with nothing changed, unless every parameter has a gradient
of its shape.
-/

namespace DeferredReward

/-- The running numbers of one parameter element. -/
structure Moment (α : Type) where
  /-- The decaying mean of the gradients. -/
  mean : α
  /-- The decaying mean of the squared gradients. -/
  square : α
  /-- The largest `square` so far, where it is kept. -/
  peak : α

instance {α : Type} [Zero α] : Zero (Moment α) := ⟨⟨0, 0, 0⟩⟩

/-- The optimizer: its settings, the number of steps and the moments by name. -/
structure Optimizer (α : Type) where
  /-- How far one step moves an element, about. -/
  learningRate : α
  /-- What is kept of the mean in a step. -/
  keepMean : α
  /-- What is kept of the mean square in a step. -/
  keepSquare : α
  /-- The summand that keeps the divisor away from zero. -/
  margin : α
  /-- The part of an element that is lost in a step, in learning rates. -/
  weightDecay : α
  /-- Whether the divisor uses the largest mean square so far. -/
  keepsPeak : Bool
  /-- The number of steps made, as a machine integer. -/
  steps : Int32
  /-- The moments of the parameters met so far. -/
  moments : Catalog (Matrix (Moment α))

namespace Optimizer

variable {α : Type} [Analysis α]

/-- An optimizer with the usual settings, before any step. -/
def ofRate (learningRate : α) : Optimizer α where
  learningRate := learningRate
  keepMean := 0.9
  keepSquare := 0.999
  margin := 1e-8
  weightDecay := 0.01
  keepsPeak := false
  steps := 0
  moments := .empty

/-- What all elements share in one step. -/
structure Schedule (α : Type) where
  /-- The factor that decay leaves of an element. -/
  decay : α
  /-- The learning rate corrected for the bias of the mean. -/
  rate : α
  /-- The root of the correction for the bias of the mean square. -/
  spread : α

/-- The shared numbers of the step with that count. -/
def schedule (o : Optimizer α) (count : Int32) : Schedule α where
  decay := 1 - o.learningRate * o.weightDecay
  rate := o.learningRate / (1 - Arithmetic.power o.keepMean count.toInt)
  spread := Analysis.sqrt (1 - Arithmetic.power o.keepSquare count.toInt)

/-- The moment of an element after a gradient. -/
def accumulate (o : Optimizer α) (m : Moment α) (g : α) : Moment α :=
  let square := o.keepSquare * m.square + (1 - o.keepSquare) * g * g
  { mean := o.keepMean * m.mean + (1 - o.keepMean) * g
    square := square
    peak := if o.keepsPeak then Arithmetic.larger m.peak square else m.peak }

/-- The element after decay and a move against its mean gradient. -/
def descend (o : Optimizer α) (s : Schedule α) (x : α) (m : Moment α) : α :=
  let divisor := Analysis.sqrt (if o.keepsPeak then m.peak else m.square) / s.spread + o.margin
  x * s.decay - s.rate * m.mean / divisor

/-- The moments of a parameter: those kept under its name, or zeros. -/
def momentsOf (o : Optimizer α) (name : String) (shape : Shape) : Matrix (Moment α) :=
  (o.moments.find? name).getD (Matrix.zeros shape)

/-- The moments of all given parameters after their gradients. -/
def accumulated (o : Optimizer α) (parameters gradients : Parameters α) :
    Except Fault (Catalog (Matrix (Moment α))) :=
  parameters.traverse fun name p => do
    return Matrix.zip o.accumulate (o.momentsOf name p.shape) (← gradients.fetch name)

/-- The parameters moved by their moments. -/
def descended (o : Optimizer α) (s : Schedule α) (moments : Catalog (Matrix (Moment α)))
    (parameters : Parameters α) : Parameters α :=
  parameters.mapEntries fun name p =>
    match moments.find? name with
    | some m => Matrix.zip (o.descend s) p m
    | none => p

/-- The first parameter that is kept with moments of another shape. -/
def reshaped? (o : Optimizer α) (parameters : Parameters α) : Option String :=
  (parameters.entries.find? fun entry =>
    (o.momentsOf entry.1 entry.2.shape).shape != entry.2.shape).map Prod.fst

/-- One step: the new parameters, in the order of the old ones, and the
optimizer after it. A count that overflows is a fault, and so is a parameter
that has changed its shape. -/
def step (o : Optimizer α) (parameters gradients : Parameters α) :
    Except Fault (Except NetworkError (Parameters α) × Optimizer α) :=
  match parameters.mismatch? gradients with
  | some name => .ok (.error (.unsuitableParameter name), o)
  | none =>
    if o.steps = Int32.maxValue then .error .countOverflow
    else
      match o.reshaped? parameters with
      | some name => .error (.momentShape name)
      | none => do
        let steps := o.steps + 1
        let fresh ← o.accumulated parameters gradients
        return (.ok (o.descended (o.schedule steps) fresh parameters),
          { o with steps, moments := o.moments.merge fresh })

end Optimizer

end DeferredReward
