import DeferredReward.Decimal.Binary

/-!
# The shortest decimal of a double

Among the decimals that round to a double the shortest is the one with the
fewest significant digits, and of those the nearest to the exact value. The
search goes through the grids of multiples of a power of ten, from coarse to
fine, and asks on each whether one of the two neighbours of the exact value
rounds to the double; if any point of a grid does, one of these two does. When
both do and are equally near, a rule of the format decides. All comparisons are
between whole numbers.
-/

namespace DeferredReward

/-- The magnitude `digits * 10 ^ exponent`. -/
structure Decimal where
  /-- The significant digits as one number. -/
  digits : Nat
  /-- The exponent of ten of the last digit. -/
  exponent : Int
  deriving DecidableEq, Repr

/-- Which of two equally near decimals is taken. -/
inductive Tie where
  /-- The one whose last digit is even. -/
  | even
  /-- The larger one. -/
  | larger
  deriving DecidableEq, Repr

/-- Whether the smaller of two equally near decimals is taken. -/
def Tie.takesSmaller : Tie → (below : Nat) → Bool
  | even, below => below % 2 == 0
  | larger, _ => false

namespace Decimal

/-- A magnitude as a quotient, with the ends of the interval that rounds to it
over the same denominator. -/
structure Neighbourhood where
  /-- The numerator of the lower end. -/
  low : Nat
  /-- The numerator of the magnitude. -/
  value : Nat
  /-- The numerator of the upper end. -/
  high : Nat
  /-- The common denominator. -/
  denominator : Nat
  /-- Whether the ends round to the magnitude too. -/
  closed : Bool

/-- The neighbourhood of a binary magnitude: half way to the next double on
either side. -/
def Neighbourhood.ofBinary (b : Binary) : Neighbourhood :=
  let up := Nat.pow 2 (b.exponent - 2).toNat
  let value := 4 * b.mantissa
  { low := (value - if b.narrowBelow then 1 else 2) * up
    value := value * up
    high := (value + 2) * up
    denominator := Nat.pow 2 (2 - b.exponent).toNat
    closed := b.mantissa % 2 == 0 }

/-- Whether the number with this numerator rounds to the magnitude. -/
def Neighbourhood.holds (n : Neighbourhood) (numerator : Nat) : Bool :=
  if n.closed then n.low ≤ numerator && numerator ≤ n.high
  else n.low < numerator && numerator < n.high

/-- The same neighbourhood with all numerators multiplied. -/
def Neighbourhood.scaled (n : Neighbourhood) (factor : Nat) : Neighbourhood :=
  { n with low := n.low * factor, value := n.value * factor, high := n.high * factor }

/-- Of the grid points `below` and `below + 1`, which are `step` apart, the one
nearer to what exceeds the lower by `rest`. -/
def nearer (tie : Tie) (below rest step : Nat) : Nat :=
  if 2 * rest < step || (2 * rest == step && tie.takesSmaller below) then below else below + 1

/-- The neighbour on the grid of multiples of `10 ^ exponent` that rounds to
the magnitude; the nearer of two. -/
def onGrid? (tie : Tie) (n : Neighbourhood) (exponent : Int) : Option Nat :=
  let step := Nat.pow 10 exponent.toNat * n.denominator
  let n := n.scaled (Nat.pow 10 (-exponent).toNat)
  let below := n.value / step
  match 0 < below && n.holds (below * step), n.holds ((below + 1) * step) with
  | true, true => some (nearer tie below (n.value % step) step)
  | true, false => some below
  | false, true => some (below + 1)
  | false, false => none

/-- The first hit on the grids from `10 ^ exponent` downwards. -/
def search (tie : Tie) (n : Neighbourhood) : (grids : Nat) → (exponent : Int) → Option Decimal
  | 0, _ => none
  | grids + 1, exponent =>
    match onGrid? tie n exponent with
    | some digits => some ⟨digits, exponent⟩
    | none => search tie n grids (exponent - 1)

/-- An exponent of ten above a binary magnitude. -/
def exponentAbove (b : Binary) : Int :=
  (b.exponent + b.mantissa.log2 + 1) * 30103 / 100000 + 2

/-- The shortest decimal that rounds to a binary magnitude; zero is its own. -/
def shortest (tie : Tie) (b : Binary) : Decimal :=
  if b.mantissa = 0 then ⟨0, 0⟩
  else (search tie (.ofBinary b) 24 (exponentAbove b)).getD ⟨0, 0⟩

/-- The smallest double needs one digit, although its value has 751. -/
example : shortest .even ⟨1, -1074, false⟩ = ⟨5, -324⟩ := by decide +kernel

/-- One tenth. -/
example : shortest .even ⟨7205759403792794, -56, false⟩ = ⟨1, -1⟩ := by decide +kernel

/-- The double after one tenth. -/
example : shortest .even ⟨7205759403792795, -56, false⟩ = ⟨10000000000000002, -17⟩ := by
  decide +kernel

/-- `2 ^ -25` is `2.98023223876953125e-8`, half way between two decimals of 17 digits. -/
example : (shortest .even ⟨leadingBit, -77, true⟩).digits = 29802322387695312 ∧
    (shortest .larger ⟨leadingBit, -77, true⟩).digits = 29802322387695313 := by decide +kernel

end Decimal

end DeferredReward
