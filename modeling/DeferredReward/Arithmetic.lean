/-!
# The arithmetic that training computes in

Every formula of this library is written once, over a type of numbers that
only has to offer the operations below. No law is attached to them: the
program runs on doubles, where addition is not associative, while a theorem
about exact arithmetic reads the same formulas in a field. `Arithmetic` holds
the rational operations and the tests, `Analysis` adds roots, exponentials and
the place of a random draw inside an interval.
-/

namespace DeferredReward

/-- Numbers with rational operations, decimal constants and order tests. -/
class Arithmetic (α : Type) extends
    Zero α, One α, Add α, Sub α, Mul α, Div α, Neg α, NatCast α, OfScientific α where
  /-- Whether the first number is smaller. -/
  less : α → α → Bool
  /-- Whether the first number is smaller or equal. -/
  atMost : α → α → Bool
  /-- Whether the value stands for an undefined result. -/
  isNaN : α → Bool
  /-- Whether the value is an ordinary number, neither infinite nor undefined. -/
  isFinite : α → Bool

/-- Arithmetic with the functions of analysis that networks need. -/
class Analysis (α : Type) extends Arithmetic α where
  /-- The square root. -/
  sqrt : α → α
  /-- The exponential function. -/
  exp : α → α
  /-- The hyperbolic tangent. -/
  tanh : α → α
  /-- The point of the interval from `low` to `high` that belongs to the 52 bit
  number `draw`; equal numbers are equally far apart. -/
  pointBetween (low high : α) (draw : Nat) : α

namespace Arithmetic

variable {α : Type}

/-- The larger of two numbers; an undefined one gives way to the other. -/
def larger [Arithmetic α] (x y : α) : α :=
  if less x y then y else if isNaN x then y else x

/-- The distance from zero. -/
def magnitude [Arithmetic α] (x : α) : α :=
  if less x 0 then -x else x

/-- The number moved into the interval from `low` to `high`. An undefined number stays. -/
def clamp [Arithmetic α] (low high x : α) : α :=
  if less x low then low else if less high x then high else x

/-- `total * base ^ exponent` by repeated squaring: each binary digit of the
exponent multiplies the total where it is one, and squares the base. -/
def powerOnto [Mul α] (total base : α) (exponent : Nat) : α :=
  let total := if exponent % 2 = 1 then total * base else total
  if exponent / 2 = 0 then total else powerOnto total (base * base) (exponent / 2)
termination_by exponent
decreasing_by omega

/-- Integer powers; a negative exponent gives the reciprocal of the power. -/
def power [One α] [Mul α] [Div α] (base : α) (exponent : Int) : α :=
  let whole := powerOnto 1 base exponent.natAbs
  if exponent < 0 then 1 / whole else whole

end Arithmetic

end DeferredReward
