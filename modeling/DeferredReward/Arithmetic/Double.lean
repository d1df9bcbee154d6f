import DeferredReward.Arithmetic

/-!
# Doubles as the arithmetic of a run

The instance that the program computes with. A random draw of 52 bits becomes
a point of an interval by one multiplication and one addition; the width is
first lowered, one representable number at a time, until the largest draw
stays below the upper end.
-/

namespace DeferredReward.Double

/-- The next smaller double of a positive one. -/
def below (x : Float) : Float := Float.ofBits (x.toBits - 1)

/-- The largest fraction that 52 bits can express, `1 - 2 ^ -52`. -/
def largestFraction : Float := 1.0 - 2.220446049250313e-16

/-- The widest step from `low` for which even the largest fraction of it stays
below `high`. At most `tries` smaller widths are considered; rounding never
needs more than a few. -/
def widthWithin (low high width : Float) : (tries : Nat) → Float
  | 0 => width
  | tries + 1 =>
    if width * largestFraction + low >= high then widthWithin low high (below width) tries
    else width

/-- The point of the interval from `low` to `high` for a draw of 52 bits. -/
def pointBetween (low high : Float) (draw : Nat) : Float :=
  Float.ofNat draw * 2.220446049250313e-16 * widthWithin low high (high - low) 64 + low

instance : Arithmetic Float where
  zero := 0.0
  one := 1.0
  natCast := Float.ofNat
  less x y := x < y
  atMost x y := x <= y
  isNaN := Float.isNaN
  isFinite := Float.isFinite

instance : Analysis Float where
  sqrt := Float.sqrt
  exp := Float.exp
  tanh := Float.tanh
  pointBetween := pointBetween

end DeferredReward.Double
