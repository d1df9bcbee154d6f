import DeferredReward.Decimal.Shortest

/-!
# The double nearest to a decimal

Reading rounds to the nearest double, ties to the even one. A decimal is taken
as a quotient of whole numbers, whose place between the powers of two gives the
last bit that the double has; the mantissa is the nearest multiple of that bit.
Decimals far outside the range of doubles are settled by the place of their
leading digit alone, so that no huge power of ten is computed.

Main statement: `valid_signed`, by which the bits are always those of a double.
-/

namespace DeferredReward

/-! ## The bits of doubles -/

/-- The bits of a magnitude `mantissa * 2 ^ exponent`, whose exponent is from `-1074` and which has
a leading bit if it is larger. The leading bit adds one to the place of the exponent. -/
def magnitudeBits (mantissa : Nat) (exponent : Int) : Nat :=
  (exponent + 1074).toNat * leadingBit + mantissa

/-- The bits of infinity: a full exponent and no mantissa. -/
def infinityBits : Nat := 2047 * leadingBit

/-- The bits of a magnitude with those of a sign before them. -/
def signed (negative : Bool) (bits : Nat) : Nat :=
  if negative then 2048 * leadingBit + bits else bits

@[simp] theorem signed_false (bits : Nat) : signed false bits = bits := rfl

@[simp] theorem signed_true (bits : Nat) : signed true bits = 2048 * leadingBit + bits := rfl

theorem toNat_signed (negative : Bool) {bits : Nat} (h : bits ≤ infinityBits) :
    (UInt64.ofNat (signed negative bits)).toNat = signed negative bits := by
  refine UInt64.toNat_ofNat_of_lt' ?_
  unfold infinityBits at h
  cases negative <;> simp only [signed_false, signed_true, leadingBit, UInt64.size] at h ⊢ <;> omega

open Float.Model Float.Model.UnpackedFloat in
theorem toNat_unpackExponent (b : BitVec Format.binary64.numBits) :
    (unpackExponent b).toNat = b.toNat / leadingBit % 2048 := by
  rw [unpackExponent, BitVec.toNat_cast, BitVec.extractLsb_toNat, Nat.shiftRight_eq_div_pow]
  rfl

open Float.Model Float.Model.UnpackedFloat in
theorem toNat_unpackMantissa (b : BitVec Format.binary64.numBits) :
    (unpackMantissa b).toNat = b.toNat % leadingBit := by
  rw [unpackMantissa, BitVec.toNat_cast, BitVec.extractLsb_toNat, Nat.shiftRight_zero]
  rfl

/-- Bits up to those of infinity are those of a double, with either sign. -/
theorem valid_signed (negative : Bool) {bits : Nat} (h : bits ≤ infinityBits) :
    Float.Model.Format.binary64.Valid (UInt64.ofNat (signed negative bits)).toBitVec := by
  have hvalue : (UInt64.ofNat (signed negative bits)).toBitVec.toNat = signed negative bits :=
    toNat_signed negative h
  refine ⟨fun hexponent hmantissa => absurd (BitVec.eq_of_toNat_eq ?_) hmantissa⟩
  have hfull : signed negative bits / leadingBit % 2048 = 2047 := by
    rw [← hvalue, ← toNat_unpackExponent, hexponent]
    rfl
  rw [toNat_unpackMantissa, hvalue]
  change signed negative bits % leadingBit = 0
  unfold infinityBits at h
  cases negative <;> simp only [signed_false, signed_true, leadingBit] at h hfull ⊢ <;> omega

namespace Decimal

/-! ## Rounding -/

/-- The least `n` for which the quotient is below `2 ^ n`. -/
def powerAbove (numerator denominator : Nat) : Int :=
  let n : Int := numerator.log2 - denominator.log2
  if numerator * Nat.pow 2 (-n).toNat < denominator * Nat.pow 2 n.toNat then n else n + 1

/-- The bits of the double nearest to the quotient, if that is below infinity. -/
def nearestBits (numerator denominator : Nat) : Nat :=
  let exponent := max (powerAbove numerator denominator - 53) (-1074)
  let numerator := numerator * Nat.pow 2 (-exponent).toNat
  let denominator := denominator * Nat.pow 2 exponent.toNat
  magnitudeBits (nearer .even (numerator / denominator) (numerator % denominator) denominator)
    exponent

/-- The bits of the double nearest to the decimal; those of infinity beyond the largest one. -/
def bits (d : Decimal) : Nat :=
  if d.digits = 0 then 0
  else
    let leading := d.exponent + d.digits.repr.length - 1
    if 400 < leading then infinityBits
    else if leading < -400 then 0
    else min infinityBits
      (nearestBits (d.digits * Nat.pow 10 d.exponent.toNat) (Nat.pow 10 (-d.exponent).toNat))

theorem bits_le (d : Decimal) : d.bits ≤ infinityBits := by
  unfold bits
  dsimp only
  repeat' split
  all_goals omega

/-- The double nearest to the decimal, with a sign. -/
def withSign (negative : Bool) (d : Decimal) : Float :=
  .ofModel ⟨.ofNat (signed negative d.bits), valid_signed negative d.bits_le⟩

/-- The double nearest to the decimal. -/
def toFloat (d : Decimal) : Float := d.withSign false

/-- One tenth. -/
example : (Decimal.mk 1 (-1)).toFloat = 0.1 := by decide +kernel

/-- The smallest double, and the largest decimal of one digit that is read as zero. -/
example : (Decimal.mk 5 (-324)).withSign true = -5e-324 ∧
    (Decimal.mk 2 (-324)).withSign true = -0.0 := by decide +kernel

/-- The largest double, and the smallest decimal of two digits that is read as infinity. -/
example : (Decimal.mk 17976931348623157 292).bits + 1 = infinityBits ∧
    (Decimal.mk 18 307).bits = infinityBits := by decide +kernel

end Decimal

end DeferredReward
