import DeferredReward.Arithmetic.Double
import DeferredReward.Proofs.Decimal.Doubles

/-!
# What order tests tell of a double

No order test holds of an undefined number. A double that is not below zero is
therefore finite or the positive infinity, and one that is not above one either is
finite.

Main statements: `unpack_cases`, `isFinite_or_infinite`, `isFinite_of_atMost`.
-/

namespace DeferredReward.Double

open Float.Model Float.Model.UnpackedFloat

variable {x : Float}

/-- The sign is the first bit. -/
theorem toNat_unpackSign (b : BitVec Format.binary64.numBits) :
    (unpackSign b).toNat = b.toNat / leadingBit / 2048 := by
  have hlt : b.toNat < 2 ^ 64 := b.isLt
  delta unpackSign
  rw [BitVec.toNat_cast, BitVec.extractLsb_toNat, Nat.shiftRight_eq_div_pow]
  change b.toNat / 2 ^ 63 % 2 = _
  unfold leadingBit
  omega

/-- A smaller number is also smaller or equal. -/
theorem atMost_of_less {y : Float} (h : Arithmetic.less x y = true) :
    Arithmetic.atMost x y = true := by
  have hlt : x.toModel.unpack.lt y.toModel.unpack = true :=
    of_decide_eq_true (of_decide_eq_true h : Float.lt x y = true)
  have hcompare : x.toModel.unpack.compare y.toModel.unpack = some .lt := eq_of_beq hlt
  have hle : x.toModel.unpack.le y.toModel.unpack = true := by
    rw [UnpackedFloat.le, hcompare]
    rfl
  exact decide_eq_true (decide_eq_true hle : Float.le x y = true)

theorem le_of_atMost {y : Float} (h : Arithmetic.atMost x y = true) :
    x.toModel.unpack.le y.toModel.unpack = true :=
  of_decide_eq_true (of_decide_eq_true h : Float.le x y = true)

/-- What is not below zero is finite or the positive infinity. -/
theorem unpack_of_atMost (h : Arithmetic.atMost 0 x = true) :
    x.isFinite = true ∨ x.toModel.unpack = .infinity .positive := by
  have hle : (UnpackedFloat.zero .positive).le x.toModel.unpack = true := le_of_atMost h
  have hfinite : x.isFinite = x.toModel.unpack.isFinite := rfl
  rw [hfinite]
  cases hx : x.toModel.unpack with
  | notANumber =>
    rw [hx] at hle
    cases hle
  | infinity sign =>
    rw [hx] at hle
    cases sign with
    | positive => exact .inr rfl
    | negative => cases hle
  | zero sign => exact .inl rfl
  | finite sign mantissa exponent pos => exact .inl rfl

/-- What bits are unpacked to. Only a full exponent without mantissa gives an infinity,
and a mantissa has at most 53 bits. -/
theorem unpack_cases (bits : BitVec Format.binary64.numBits) :
    (UnpackedFloat.unpack .binary64 bits = .infinity (Sign.ofBitVec (unpackSign bits)) ∧
      unpackExponent bits = -BitVec.ofNat _ 1 ∧ unpackMantissa bits = BitVec.ofNat _ 0) ∨
    UnpackedFloat.unpack .binary64 bits = .notANumber ∨
    (∃ sign, UnpackedFloat.unpack .binary64 bits = .zero sign) ∨
    ∃ sign mantissa exponent hpos, mantissa < 2 ^ 53 ∧
      UnpackedFloat.unpack .binary64 bits = .finite sign mantissa exponent hpos := by
  delta UnpackedFloat.unpack
  dsimp only
  by_cases hfull : unpackExponent bits = -BitVec.ofNat _ 1
  · rw [if_pos hfull]
    by_cases hzero : unpackMantissa bits = BitVec.ofNat _ 0
    · rw [if_pos hzero]
      exact .inl ⟨rfl, hfull, hzero⟩
    · rw [if_neg hzero]
      exact .inr (.inl rfl)
  · rw [if_neg hfull]
    refine .inr (.inr ?_)
    by_cases hsmall : unpackExponent bits = BitVec.ofNat _ 0
    · rw [if_pos hsmall]
      by_cases hzero : unpackMantissa bits = BitVec.ofNat _ 0
      · rw [dif_pos hzero]
        exact .inl ⟨_, rfl⟩
      · rw [dif_neg hzero]
        exact .inr ⟨_, _, _, _, (unpackMantissa bits).isLt.trans (by decide), rfl⟩
    · rw [if_neg hsmall]
      exact .inr ⟨_, _, _, _, (1#1 ++ unpackMantissa bits).isLt, rfl⟩

/-- Only a full exponent without mantissa is unpacked to an infinity. -/
theorem fields_of_unpack {bits : BitVec Format.binary64.numBits} {sign : Sign}
    (h : UnpackedFloat.unpack .binary64 bits = .infinity sign) :
    unpackExponent bits = -BitVec.ofNat _ 1 ∧
      unpackMantissa bits = BitVec.ofNat _ 0 ∧
      Sign.ofBitVec (unpackSign bits) = sign := by
  obtain ⟨hinfinity, hfull, hzero⟩ | hother | ⟨_, hother⟩ | ⟨_, _, _, _, _, hother⟩ :=
    unpack_cases bits
  · rw [h] at hinfinity
    exact ⟨hfull, hzero, (UnpackedFloat.infinity.inj hinfinity).symm⟩
  · rw [h] at hother
    cases hother
  · rw [h] at hother
    cases hother
  · rw [h] at hother
    cases hother

/-- A mantissa has at most 53 bits. -/
theorem mantissa_lt {bits : BitVec Format.binary64.numBits} {sign : Sign} {mantissa : ℕ}
    {exponent : ℤ} {hpos : 0 < mantissa}
    (h : UnpackedFloat.unpack .binary64 bits = .finite sign mantissa exponent hpos) :
    mantissa < 2 ^ 53 := by
  obtain ⟨hother, _⟩ | hother | ⟨_, hother⟩ | ⟨_, _, _, _, hlt, hfinite⟩ := unpack_cases bits
  · rw [h] at hother
    cases hother
  · rw [h] at hother
    cases hother
  · rw [h] at hother
    cases hother
  · rw [h] at hfinite
    obtain ⟨-, hmantissa, -⟩ := UnpackedFloat.finite.inj hfinite
    rwa [hmantissa]

/-- The positive infinity is of the class that has its name. -/
theorem class_of_unpack (h : x.toModel.unpack = .infinity .positive) :
    FloatClass.of x = .infinite false := by
  have hsign := toNat_unpackSign x.toModel.toBits.toBitVec
  have hexponent := toNat_unpackExponent x.toModel.toBits.toBitVec
  have hmantissa := toNat_unpackMantissa x.toModel.toBits.toBitVec
  change _ = x.toBits.toNat / leadingBit / 2048 at hsign
  change _ = x.toBits.toNat / leadingBit % 2048 at hexponent
  change _ = x.toBits.toNat % leadingBit at hmantissa
  obtain ⟨hfull, hzero, hpositive⟩ := fields_of_unpack h
  rw [hfull] at hexponent
  rw [hzero] at hmantissa
  unfold Sign.ofBitVec at hpositive
  split at hpositive
  · rename_i hnone
    rw [hnone] at hsign
    unfold FloatClass.of
    dsimp only
    rw [← hsign, ← hexponent, ← hmantissa]
    rfl
  · cases hpositive

/-- What is not below zero is finite or the positive infinity. -/
theorem isFinite_or_infinite (h : Arithmetic.atMost 0 x = true) :
    x.isFinite = true ∨ FloatClass.of x = .infinite false :=
  (unpack_of_atMost h).imp_right class_of_unpack

/-- What is not above one is not the positive infinity. -/
theorem unpack_ne_of_atMost (h : Arithmetic.atMost x 1 = true) :
    x.toModel.unpack ≠ .infinity .positive := by
  intro hx
  have hle := le_of_atMost h
  rw [hx] at hle
  have hone : ((UnpackedFloat.infinity .positive).le (1.0 : Float).toModel.unpack) = false := by
    decide +kernel
  have hle : (UnpackedFloat.infinity .positive).le (1.0 : Float).toModel.unpack = true := hle
  rw [hone] at hle
  cases hle

/-- Numbers from zero to one are finite. -/
theorem isFinite_of_atMost (hlow : Arithmetic.atMost 0 x = true)
    (hhigh : Arithmetic.atMost x 1 = true) : x.isFinite = true :=
  (unpack_of_atMost hlow).resolve_right (unpack_ne_of_atMost hhigh)

end DeferredReward.Double
