import DeferredReward.Arithmetic
import DeferredReward.Fault
import DeferredReward.Network.Error
import DeferredReward.Parameters

/-!
# Blending and clamping parameter catalogs

The slow network follows the trained one by a weighted mean of their
parameters. Gradients are clamped element by element before they are used.
-/

namespace DeferredReward.Parameters

variable {α : Type} [Arithmetic α]

/-- `weight * leading + (1 - weight) * following` for each element. The two
catalogs must hold the same names with the same shapes; the result has the
order of the leading one. -/
def blend (leading following : Parameters α) (weight : α) :
    Except NetworkError (Parameters α) :=
  if leading.size = following.size then
    match leading.mismatch? following with
    | some name => .error (.unsuitableParameter name)
    | none => .ok (leading.mapEntries fun name p =>
        match following.find? name with
        | some q => Matrix.zip (fun x y => x * weight + y * (1 - weight)) p q
        | none => p)
  else .error (.differentSizes following.size leading.size)

/-- Every element moved into the interval from `-bound` to `bound`. There must
be such an interval as soon as there is an element. -/
def clampWithin (bound : α) (gradients : Parameters α) : Except Fault (Parameters α) :=
  if Arithmetic.atMost (-bound) bound || gradients.entries.all fun entry => entry.2.size == 0 then
    .ok (gradients.map fun m => m.map (Arithmetic.clamp (-bound) bound))
  else .error .emptyInterval

end DeferredReward.Parameters
