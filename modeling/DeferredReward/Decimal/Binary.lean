/-!
# The exact value of a double

A finite double is a whole number times a power of two. `Binary.ofFloat` reads
both off its bits, and `Binary.gap` tells where the neighbouring doubles are, so
that the modules about decimals compute in whole numbers alone.
-/

namespace DeferredReward

/-- A finite magnitude `mantissa * 2 ^ exponent` as doubles represent it. -/
structure Binary where
  /-- The whole factor, below `2 ^ 53`. -/
  mantissa : Nat
  /-- The exponent of two. -/
  exponent : Int
  /-- Whether the next smaller double is only half as far as the next larger one. -/
  narrowBelow : Bool
  deriving DecidableEq, Repr

/-- What a double stands for, with its sign bit. -/
inductive FloatClass where
  /-- A finite number. -/
  | finite (negative : Bool) (magnitude : Binary)
  /-- An infinity. -/
  | infinite (negative : Bool)
  /-- No number. -/
  | nan
  deriving DecidableEq, Repr

/-- The first bit of a full mantissa, which the bits of a double leave out: `2 ^ 52`. -/
def leadingBit : Nat := 4503599627370496

/-- The class of a double, read off its bits. -/
def FloatClass.of (x : Float) : FloatClass :=
  let bits := x.toBits.toNat
  let negative := bits / leadingBit / 2048 == 1
  let scale := bits / leadingBit % 2048
  let fraction := bits % leadingBit
  if scale = 2047 then
    if fraction = 0 then .infinite negative else .nan
  else if scale = 0 then .finite negative ⟨fraction, -1074, false⟩
  else .finite negative ⟨leadingBit + fraction, (scale : Int) - 1075, fraction == 0 && scale != 1⟩

/-- One and a half is `3 * 2 ^ 51` times `2 ^ -52`. -/
example : FloatClass.of 1.5 = .finite false ⟨6755399441055744, -52, false⟩ := by decide +kernel

end DeferredReward
