import DeferredReward.Proofs.Decimal.Nearest

/-!
# The bits of a double

The class of a finite double is a magnitude as doubles represent it, and tells
all its bits. So a double is the one that is read from a decimal whenever the
decimal rounds to its magnitude.

Main statements: `finite_class`, `withSign_of_rounds`.
-/

namespace DeferredReward

open Float.Model Float.Model.UnpackedFloat in
/-- The exponent of a finite double is not full. -/
theorem exponent_ne_of_isFinite {x : Float} (h : x.isFinite = true) :
    x.toBits.toNat / leadingBit % 2048 ≠ 2047 := by
  intro hfull
  have hexponent : @unpackExponent .binary64 x.toModel.toBits.toBitVec = -1#11 := by
    refine BitVec.eq_of_toNat_eq ?_
    rw [toNat_unpackExponent]
    exact hfull
  have hfinite : (UnpackedFloat.unpack .binary64 x.toModel.toBits.toBitVec).isFinite = true := h
  delta UnpackedFloat.unpack at hfinite
  dsimp only at hfinite
  rw [if_pos hexponent] at hfinite
  split at hfinite <;> cases hfinite

/-- Bits are those of a sign, an exponent and a fraction. -/
theorem eq_signed {bits : ℕ} (h : bits < UInt64.size) :
    bits = signed (bits / leadingBit / 2048 == 1)
      (bits / leadingBit % 2048 * leadingBit + bits % leadingBit) := by
  have hsign : bits / leadingBit / 2048 = 0 ∨ bits / leadingBit / 2048 = 1 := by
    unfold leadingBit UInt64.size at *
    omega
  obtain hsign | hsign := hsign <;> rw [hsign]
  · change bits = bits / leadingBit % 2048 * leadingBit + bits % leadingBit
    unfold leadingBit at *
    omega
  · change bits = 2048 * leadingBit + (bits / leadingBit % 2048 * leadingBit + bits % leadingBit)
    unfold leadingBit at *
    omega

/-- A finite double is a sign and a magnitude, which tell its bits. -/
theorem finite_class {x : Float} (h : x.isFinite = true) :
    ∃ negative b, FloatClass.of x = .finite negative b ∧ b.Canonical ∧
      x.toBits.toNat = signed negative (magnitudeBits b.mantissa b.exponent) := by
  have hfull := exponent_ne_of_isFinite h
  have hsplit := eq_signed x.toBits.toNat_lt
  unfold FloatClass.of
  generalize x.toBits.toNat = bits at *
  have hscale : bits / leadingBit % 2048 < 2048 := Nat.mod_lt _ (by decide)
  have hfraction : bits % leadingBit < leadingBit := Nat.mod_lt _ (by decide)
  dsimp only
  generalize bits / leadingBit % 2048 = scale at *
  generalize bits % leadingBit = fraction at *
  rw [if_neg hfull]
  by_cases hzero : scale = 0
  · rw [if_pos hzero]
    subst hzero
    refine ⟨_, _, rfl, ⟨?_, ?_, ?_, .inl rfl, ?_⟩, hsplit⟩
    · dsimp only
      omega
    · dsimp only
      omega
    · dsimp only
      omega
    · simp
  · rw [if_neg hzero]
    refine ⟨_, _, rfl, ⟨?_, ?_, ?_, ?_, ?_⟩, ?_⟩
    · dsimp only
      omega
    · dsimp only
      omega
    · dsimp only
      omega
    · exact .inr (Nat.le_add_right _ _)
    · dsimp only
      rw [Bool.and_eq_true, beq_iff_eq, bne_iff_ne, Nat.add_eq_left]
      omega
    · refine hsplit.trans (congrArg (signed _) ?_)
      obtain ⟨place, rfl⟩ := Nat.exists_eq_succ_of_ne_zero hzero
      have hplace : (((place.succ : ℕ) : ℤ) - 1075 + 1074).toNat = place := by omega
      rw [magnitudeBits, hplace, Nat.succ_mul, Nat.add_assoc]

/-- The double with given bits is read from a decimal with these bits. -/
theorem Decimal.withSign_of_bits {x : Float} {negative : Bool} {d : Decimal}
    (h : x.toBits.toNat = signed negative d.bits) : d.withSign negative = x := by
  obtain ⟨⟨bits, hvalid⟩⟩ := x
  have hbits : UInt64.ofNat (signed negative d.bits) = bits := by
    rw [← h]
    exact UInt64.ofNat_toNat
  unfold Decimal.withSign
  subst hbits
  rfl

/-- A finite double is read from its sign and every decimal that rounds to its magnitude, and zero
from the decimals without digits. -/
theorem withSign_of_class {x : Float} (h : x.isFinite = true) :
    ∃ negative b, FloatClass.of x = .finite negative b ∧ b.Canonical ∧
      (0 < b.mantissa → ∀ d : Decimal, 0 < d.digits → b.Rounds d.value →
        d.withSign negative = x) ∧
      (b.mantissa = 0 → ∀ d : Decimal, d.digits = 0 → d.withSign negative = x) := by
  obtain ⟨negative, b, hclass, hb, hbits⟩ := finite_class h
  refine ⟨negative, b, hclass, hb, ?_, ?_⟩
  · intro hpos d hdigits hrounds
    rw [← Decimal.bits_of_rounds hb hpos hdigits hrounds] at hbits
    exact Decimal.withSign_of_bits hbits
  · intro hzero d hdigits
    have hexponent : b.exponent = -1074 := by
      refine hb.leading.resolve_right ?_
      rw [hzero]
      decide
    rw [hzero, hexponent] at hbits
    refine Decimal.withSign_of_bits ?_
    rw [hbits, Decimal.bits, if_pos hdigits]
    rfl

end DeferredReward
