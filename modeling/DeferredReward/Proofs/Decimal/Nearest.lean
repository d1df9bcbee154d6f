import DeferredReward.Decimal.Reading
import Mathlib.Algebra.Order.Field.Power
import Mathlib.Algebra.Order.Field.Rat
import Mathlib.Tactic.FieldSimp
import Mathlib.Tactic.Linarith
import Mathlib.Tactic.Positivity
import Mathlib.Tactic.Ring

/-!
# The nearest double

A quotient that lies between the middles of the gaps on both sides of a double
is rounded to that double; a middle itself is, if the mantissa is even. Only
below a power of two the rounding first finds twice the mantissa with one power
of two less, and carries into the exponent. A decimal is such a quotient, and
when it is rounded to a double its leading digit is not far from the point.

Main statements: `nearestBits_of_rounds`, `bits_of_rounds`.
-/

namespace DeferredReward

/-! ## Powers -/

/-- A power as a quotient of powers with natural exponents. -/
theorem zpow_eq_div (a : ℚ) (n : ℤ) : a ^ n = a ^ n.toNat / a ^ (-n).toNat := by
  cases n with
  | ofNat n => simp
  | negSucc n => simp [zpow_negSucc, Int.neg_negSucc]

/-- A quotient is compared with a power of two in whole numbers. -/
theorem div_lt_two_zpow_iff {numerator denominator : ℕ} (hpos : 0 < denominator) (n : ℤ) :
    (numerator / denominator : ℚ) < 2 ^ n ↔
      numerator * Nat.pow 2 (-n).toNat < denominator * Nat.pow 2 n.toNat := by
  have hden : (0 : ℚ) < denominator := Nat.cast_pos.2 hpos
  rw [zpow_eq_div, div_lt_div_iff₀ hden (by positivity), mul_comm (2 ^ n.toNat : ℚ)]
  exact_mod_cast Iff.rfl

/-- A power of ten is below a power of two whose exponent is larger by a little more than their
ratio; the ratio is taken as `10 / 3` above one and as `93 / 28` below. -/
theorem ten_zpow_le_two_zpow {g k : ℤ} (hlarge : 0 ≤ g → 10 * g ≤ 3 * k)
    (hsmall : g < 0 → 93 * g ≤ 28 * k) : (10 : ℚ) ^ g ≤ 2 ^ k := by
  rcases le_or_gt 0 g with hg | hg
  · obtain ⟨n, rfl⟩ := Int.eq_ofNat_of_zero_le hg
    have hcube : ((10 : ℚ) ^ (n : ℤ)) ^ 3 ≤ (2 ^ k) ^ 3 := by
      calc ((10 : ℚ) ^ (n : ℤ)) ^ 3 = (10 ^ 3) ^ n := by
            rw [zpow_natCast, ← pow_mul, ← pow_mul, mul_comm]
        _ ≤ (2 ^ 10) ^ n := by gcongr; norm_num
        _ = 2 ^ (10 * (n : ℤ)) := by rw [← pow_mul, ← zpow_natCast]; push_cast; rfl
        _ ≤ 2 ^ (3 * k) := zpow_le_zpow_right₀ (by norm_num) (hlarge hg)
        _ = (2 ^ k) ^ 3 := by rw [← zpow_natCast, ← zpow_mul, mul_comm]; rfl
    exact (pow_le_pow_iff_left₀ (by positivity) (by positivity) (by norm_num)).1 hcube
  · obtain ⟨n, hn⟩ := Int.eq_ofNat_of_zero_le (neg_nonneg.2 hg.le)
    obtain rfl : g = -n := by omega
    have hpower : ((2 : ℚ) ^ (-k)) ^ 28 ≤ (10 ^ n) ^ 28 := by
      calc ((2 : ℚ) ^ (-k)) ^ 28 = 2 ^ (-k * 28) := by rw [← zpow_natCast, ← zpow_mul]; rfl
        _ ≤ 2 ^ (93 * (n : ℤ)) := by
          refine zpow_le_zpow_right₀ (by norm_num) ?_
          have := hsmall hg
          omega
        _ = (2 ^ 93) ^ n := by rw [← pow_mul, ← zpow_natCast]; push_cast; rfl
        _ ≤ (10 ^ 28) ^ n := by gcongr; norm_num
        _ = (10 ^ n) ^ 28 := by rw [← pow_mul, ← pow_mul, mul_comm]
    have hle := (pow_le_pow_iff_left₀ (by positivity) (by positivity) (by norm_num)).1 hpower
    rw [zpow_neg, zpow_natCast, inv_le_comm₀ (by positivity) (by positivity), ← zpow_neg]
    exact hle

/-! ## The numbers that round to a double -/

namespace Binary

/-- A magnitude is given the way doubles represent it. -/
structure Canonical (b : Binary) : Prop where
  mantissa_lt : b.mantissa < 2 * leadingBit
  least : -1074 ≤ b.exponent
  greatest : b.exponent ≤ 971
  leading : b.exponent = -1074 ∨ leadingBit ≤ b.mantissa
  narrow : b.narrowBelow = true ↔ b.mantissa = leadingBit ∧ b.exponent ≠ -1074

/-- The middle between the magnitude and the next smaller double. -/
def lower (b : Binary) : ℚ := (b.mantissa - if b.narrowBelow then 1 / 4 else 1 / 2) * 2 ^ b.exponent

/-- The middle between the magnitude and the next larger double. -/
def upper (b : Binary) : ℚ := (b.mantissa + 1 / 2) * 2 ^ b.exponent

/-- A number lies between the middles on both sides of a magnitude, and is none of them if the
mantissa is odd. -/
structure Rounds (b : Binary) (x : ℚ) : Prop where
  lower_le : b.lower ≤ x
  le_upper : x ≤ b.upper
  inside : b.mantissa % 2 = 0 ∨ b.lower < x ∧ x < b.upper

/-- The middle below is not further away than the one above. -/
theorem le_lower (b : Binary) : (b.mantissa - 1 / 2 : ℚ) * 2 ^ b.exponent ≤ b.lower := by
  unfold lower
  gcongr
  split <;> norm_num

theorem lower_pos {b : Binary} (h : 0 < b.mantissa) : 0 < b.lower := by
  have hone : (1 : ℚ) ≤ b.mantissa := by exact_mod_cast h
  refine lt_of_lt_of_le (mul_pos (by linarith) (by positivity)) b.le_lower

end Binary

namespace Decimal

variable {numerator denominator : ℕ}

/-! ## Rounding a quotient -/

/-- A quotient lies below the power of two and not below the one before. -/
theorem powerAbove_spec (hnum : 0 < numerator) (hden : 0 < denominator) :
    (2 : ℚ) ^ (powerAbove numerator denominator - 1) ≤ numerator / denominator ∧
      (numerator / denominator : ℚ) < 2 ^ powerAbove numerator denominator := by
  have hdenPos : (0 : ℚ) < denominator := Nat.cast_pos.2 hden
  have htwo : (2 : ℚ) ≠ 0 := by norm_num
  -- The quotient of the powers below numerator and denominator is off by a factor of two at most.
  have hnumLow : (2 : ℚ) ^ (numerator.log2 : ℤ) ≤ numerator := by
    rw [zpow_natCast]
    exact_mod_cast Nat.log2_self_le hnum.ne'
  have hnumHigh : (numerator : ℚ) < 2 ^ ((numerator.log2 : ℤ) + 1) := by
    exact_mod_cast (Nat.lt_log2_self : numerator < 2 ^ (numerator.log2 + 1))
  have hdenLow : (2 : ℚ) ^ (denominator.log2 : ℤ) ≤ denominator := by
    rw [zpow_natCast]
    exact_mod_cast Nat.log2_self_le hden.ne'
  have hdenHigh : (denominator : ℚ) < 2 ^ ((denominator.log2 : ℤ) + 1) := by
    exact_mod_cast (Nat.lt_log2_self : denominator < 2 ^ (denominator.log2 + 1))
  unfold powerAbove
  generalize (numerator.log2 : ℤ) = a at *
  generalize (denominator.log2 : ℤ) = b at *
  have hlow : (2 : ℚ) ^ (a - b - 1) ≤ numerator / denominator := by
    rw [le_div_iff₀ hdenPos]
    calc (2 : ℚ) ^ (a - b - 1) * denominator ≤ 2 ^ (a - b - 1) * 2 ^ (b + 1) := by gcongr
      _ = 2 ^ a := by rw [← zpow_add₀ htwo]; congr 1; ring
      _ ≤ numerator := hnumLow
  have hhigh : (numerator / denominator : ℚ) < 2 ^ (a - b + 1) := by
    rw [div_lt_iff₀ hdenPos]
    calc (numerator : ℚ) < 2 ^ (a + 1) := hnumHigh
      _ = 2 ^ (a - b + 1) * 2 ^ b := by rw [← zpow_add₀ htwo]; congr 1; ring
      _ ≤ 2 ^ (a - b + 1) * denominator := by gcongr
  dsimp only
  split <;> rename_i hbelow <;> rw [← div_lt_two_zpow_iff hden] at hbelow
  · exact ⟨hlow, hbelow⟩
  · rw [add_sub_cancel_right]
    exact ⟨not_lt.1 hbelow, hhigh⟩

theorem powerAbove_le (hnum : 0 < numerator) (hden : 0 < denominator) {n : ℤ}
    (h : (numerator / denominator : ℚ) < 2 ^ n) : powerAbove numerator denominator ≤ n := by
  have hlt := (powerAbove_spec hnum hden).1.trans_lt h
  rw [zpow_lt_zpow_iff_right₀ (by norm_num)] at hlt
  omega

theorem powerAbove_eq (hnum : 0 < numerator) (hden : 0 < denominator) {n : ℤ}
    (hlow : (2 : ℚ) ^ (n - 1) ≤ numerator / denominator)
    (hhigh : (numerator / denominator : ℚ) < 2 ^ n) : powerAbove numerator denominator = n := by
  have hlt := hlow.trans_lt (powerAbove_spec hnum hden).2
  rw [zpow_lt_zpow_iff_right₀ (by norm_num)] at hlt
  have hle := powerAbove_le hnum hden hhigh
  omega

/-- A quotient within a half of a whole number is rounded to it, if it is not just a half off an odd
one. -/
theorem nearer_eq {mantissa : ℕ} (hden : 0 < denominator)
    (hlow : 2 * mantissa * denominator ≤ 2 * numerator + denominator)
    (hhigh : 2 * numerator ≤ 2 * mantissa * denominator + denominator)
    (htie : mantissa % 2 = 0 ∨ 2 * mantissa * denominator < 2 * numerator + denominator ∧
      2 * numerator < 2 * mantissa * denominator + denominator) :
    nearer .even (numerator / denominator) (numerator % denominator) denominator = mantissa := by
  have hsplit := Nat.div_add_mod numerator denominator
  have hrest := Nat.mod_lt numerator hden
  generalize numerator / denominator = below at *
  generalize numerator % denominator = rest at *
  have hnear : mantissa = below ∨ mantissa = below + 1 := by
    have hle : mantissa < below + 2 := by
      by_contra hlarge
      have hmul := Nat.mul_le_mul_right denominator (not_lt.1 hlarge)
      nlinarith
    have hge : below < mantissa + 1 := by
      by_contra hsmall
      have hmul := Nat.mul_le_mul_right denominator (not_lt.1 hsmall)
      nlinarith
    omega
  subst hsplit
  unfold nearer Tie.takesSmaller
  obtain rfl | rfl := hnear
  · have hhalf : 2 * rest < denominator ∨ 2 * rest = denominator ∧ mantissa % 2 = 0 := by
      rcases htie with heven | ⟨_, hlt⟩
      · rcases Nat.lt_or_ge (2 * rest) denominator with hlt | hge
        · exact .inl hlt
        · exact .inr ⟨by nlinarith, heven⟩
      · exact .inl (by nlinarith)
    rw [if_pos (by simpa using hhalf)]
  · have hhalf : ¬(2 * rest < denominator ∨ 2 * rest = denominator ∧ below % 2 = 0) := by
      rintro (hlt | ⟨heq, heven⟩)
      · nlinarith
      · rcases htie with hodd | ⟨hlt, _⟩
        · omega
        · nlinarith
    rw [if_neg (by simpa using hhalf)]

/-- A quotient within a half of a multiple of a power of two has that multiple as its mantissa. -/
theorem nearer_scaled_eq {mantissa : ℕ} {exponent : ℤ} (hden : 0 < denominator)
    (hlow : (mantissa - 1 / 2 : ℚ) * 2 ^ exponent ≤ numerator / denominator)
    (hhigh : (numerator / denominator : ℚ) ≤ (mantissa + 1 / 2) * 2 ^ exponent)
    (htie : mantissa % 2 = 0 ∨ (mantissa - 1 / 2 : ℚ) * 2 ^ exponent < numerator / denominator ∧
      (numerator / denominator : ℚ) < (mantissa + 1 / 2) * 2 ^ exponent) :
    nearer .even
      (numerator * Nat.pow 2 (-exponent).toNat / (denominator * Nat.pow 2 exponent.toNat))
      (numerator * Nat.pow 2 (-exponent).toNat % (denominator * Nat.pow 2 exponent.toNat))
      (denominator * Nat.pow 2 exponent.toNat) = mantissa := by
  have hscaled : (numerator / denominator : ℚ) =
      ((numerator * Nat.pow 2 (-exponent).toNat : ℕ) /
        (denominator * Nat.pow 2 exponent.toNat : ℕ)) * 2 ^ exponent := by
    have hdenPos : (denominator : ℚ) ≠ 0 := Nat.cast_ne_zero.2 hden.ne'
    rw [zpow_eq_div, Nat.pow_eq, Nat.pow_eq]
    push_cast
    field_simp
  have hdenScaled : 0 < denominator * Nat.pow 2 exponent.toNat :=
    Nat.mul_pos hden (Nat.two_pow_pos _)
  rw [hscaled] at hlow hhigh htie
  generalize numerator * Nat.pow 2 (-exponent).toNat = numerator at *
  generalize denominator * Nat.pow 2 exponent.toNat = denominator at *
  have hpower : (0 : ℚ) < 2 ^ exponent := by positivity
  have hdenPos : (0 : ℚ) < denominator := Nat.cast_pos.2 hdenScaled
  rw [mul_le_mul_iff_left₀ hpower, le_div_iff₀ hdenPos] at hlow
  rw [mul_le_mul_iff_left₀ hpower, div_le_iff₀ hdenPos] at hhigh
  rw [mul_lt_mul_iff_left₀ hpower, mul_lt_mul_iff_left₀ hpower, lt_div_iff₀ hdenPos,
    div_lt_iff₀ hdenPos] at htie
  refine nearer_eq hdenScaled ?_ ?_ (htie.imp_right fun ⟨hlow, hhigh⟩ => ⟨?_, ?_⟩)
  · exact_mod_cast (by linarith : (2 * mantissa * denominator : ℚ) ≤ 2 * numerator + denominator)
  · exact_mod_cast (by linarith : (2 * numerator : ℚ) ≤ 2 * mantissa * denominator + denominator)
  · exact_mod_cast (by linarith : (2 * mantissa * denominator : ℚ) < 2 * numerator + denominator)
  · exact_mod_cast (by linarith : (2 * numerator : ℚ) < 2 * mantissa * denominator + denominator)

/-- The bits at the last place where a quotient is rounded. -/
theorem nearestBits_at {mantissa : ℕ} {exponent : ℤ} (hden : 0 < denominator)
    (hplace : max (powerAbove numerator denominator - 53) (-1074) = exponent)
    (hlow : (mantissa - 1 / 2 : ℚ) * 2 ^ exponent ≤ numerator / denominator)
    (hhigh : (numerator / denominator : ℚ) ≤ (mantissa + 1 / 2) * 2 ^ exponent)
    (htie : mantissa % 2 = 0 ∨ (mantissa - 1 / 2 : ℚ) * 2 ^ exponent < numerator / denominator ∧
      (numerator / denominator : ℚ) < (mantissa + 1 / 2) * 2 ^ exponent) :
    nearestBits numerator denominator = magnitudeBits mantissa exponent := by
  unfold nearestBits
  dsimp only
  rw [hplace, nearer_scaled_eq hden hlow hhigh htie]

/-- A mantissa of one more bit carries into the exponent. -/
theorem magnitudeBits_carry {exponent : ℤ} (h : -1074 < exponent) :
    magnitudeBits (2 * leadingBit) (exponent - 1) = magnitudeBits leadingBit exponent := by
  have hplace : (exponent + 1074).toNat = (exponent - 1 + 1074).toNat + 1 := by omega
  rw [magnitudeBits, magnitudeBits, hplace]
  ring

end Decimal

namespace Binary

variable {b : Binary} {x : ℚ}

theorem two_zpow_add (n m : ℤ) : (2 : ℚ) ^ (n + m) = 2 ^ m * 2 ^ n := by
  rw [add_comm, zpow_add₀ (by norm_num)]

/-- What rounds to a magnitude has no more bits before the last place than a mantissa has. -/
theorem Rounds.lt (hb : b.Canonical) (h : b.Rounds x) : x < 2 ^ (b.exponent + 53) := by
  have hmantissa : (b.mantissa : ℚ) + 1 ≤ 2 ^ 53 := by exact_mod_cast hb.mantissa_lt
  refine h.le_upper.trans_lt ?_
  rw [upper, two_zpow_add]
  gcongr
  norm_num at hmantissa ⊢
  linarith

/-- Only to powers of two round numbers with a bit less before the last place. -/
theorem Rounds.mantissa_eq (hb : b.Canonical) (h : b.Rounds x) (hleast : b.exponent ≠ -1074)
    (hsmall : x < 2 ^ (b.exponent + 52)) : b.mantissa = leadingBit := by
  refine Nat.le_antisymm ?_ (hb.leading.resolve_left hleast)
  by_contra hlarge
  have hlarge : (leadingBit : ℚ) + 1 ≤ b.mantissa := by exact_mod_cast not_le.1 hlarge
  have hpower : (0 : ℚ) < 2 ^ b.exponent := by positivity
  have hmul := mul_le_mul_of_nonneg_right hlarge hpower.le
  have hlow := b.le_lower.trans h.lower_le
  rw [two_zpow_add] at hsmall
  norm_num [leadingBit] at hmul hsmall
  linarith

end Binary

namespace Decimal

variable {numerator denominator : ℕ}

/-- A quotient that rounds to a magnitude has its bits as the nearest ones. -/
theorem nearestBits_of_rounds {b : Binary} (hb : b.Canonical) (hpos : 0 < b.mantissa)
    (hden : 0 < denominator) (h : b.Rounds (numerator / denominator)) :
    nearestBits numerator denominator = magnitudeBits b.mantissa b.exponent := by
  have hnum : 0 < numerator := by
    have hquotient := (Binary.lower_pos hpos).trans_le h.lower_le
    by_contra hzero
    rw [Nat.eq_zero_of_not_pos hzero] at hquotient
    simp at hquotient
  have hbelow := h.lt hb
  have hhalf := b.le_lower
  have hleast := hb.least
  by_cases hplace : b.exponent = -1074 ∨ (2 : ℚ) ^ (b.exponent + 52) ≤ numerator / denominator
  · -- The last bit is that of the magnitude.
    have hexponent : max (powerAbove numerator denominator - 53) (-1074) = b.exponent := by
      rcases hplace with hfirst | hfull
      · have hle := powerAbove_le hnum hden hbelow
        omega
      · have hle := powerAbove_eq hnum hden (by rwa [add_sub_assoc]) hbelow
        omega
    exact nearestBits_at hden hexponent (hhalf.trans h.lower_le) h.le_upper
      (h.inside.imp_right fun ⟨hlow, hhigh⟩ => ⟨hhalf.trans_lt hlow, hhigh⟩)
  · -- The magnitude is a power of two, and the quotient has one bit less before the last place.
    rw [not_or, not_le] at hplace
    obtain ⟨hfirst, hsmall⟩ := hplace
    have hmantissa := h.mantissa_eq hb hfirst hsmall
    have hnarrow : b.narrowBelow = true := hb.narrow.2 ⟨hmantissa, hfirst⟩
    have hprevious : (2 : ℚ) ^ b.exponent = 2 * 2 ^ (b.exponent - 1) := by
      rw [zpow_sub_one₀ (by norm_num)]
      ring
    have hlow : (((2 * leadingBit : ℕ) : ℚ) - 1 / 2) * 2 ^ (b.exponent - 1) ≤
        numerator / denominator := by
      refine le_trans (le_of_eq ?_) h.lower_le
      rw [Binary.lower, hnarrow, hmantissa, hprevious, if_pos rfl]
      push_cast
      ring
    have hexponent : max (powerAbove numerator denominator - 53) (-1074) = b.exponent - 1 := by
      have hle := powerAbove_eq hnum hden (n := b.exponent + 52) ?_ hsmall
      · omega
      · refine le_trans ?_ hlow
        rw [add_sub_assoc, Binary.two_zpow_add, hprevious, ← mul_assoc]
        gcongr
        norm_num [leadingBit]
    have hhigh : (numerator / denominator : ℚ) ≤
        (((2 * leadingBit : ℕ) : ℚ) + 1 / 2) * 2 ^ (b.exponent - 1) := by
      have hpower : (0 : ℚ) < 2 ^ (b.exponent - 1) := by positivity
      rw [Binary.two_zpow_add, hprevious] at hsmall
      norm_num [leadingBit] at hsmall ⊢
      linarith
    rw [nearestBits_at hden hexponent hlow hhigh (.inl (Nat.mul_mod_right 2 leadingBit)),
      magnitudeBits_carry (by omega), hmantissa]

/-! ## Rounding a decimal -/

/-- The number that a decimal stands for. -/
def value (d : Decimal) : ℚ := d.digits * 10 ^ d.exponent

theorem value_eq_div (d : Decimal) :
    d.value = (d.digits * Nat.pow 10 d.exponent.toNat : ℕ) /
      (Nat.pow 10 (-d.exponent).toNat : ℕ) := by
  rw [value, zpow_eq_div, Nat.pow_eq, Nat.pow_eq]
  push_cast
  rw [mul_div_assoc]

/-- The place of the leading digit bounds a decimal. -/
theorem leading_spec {d : Decimal} (h : 0 < d.digits) :
    (10 : ℚ) ^ (d.exponent + d.digits.repr.length - 1) ≤ d.value ∧
      d.value < 10 ^ (d.exponent + d.digits.repr.length) := by
  have hlength : 0 < d.digits.repr.length := Nat.length_repr_pos
  have hhigh : d.digits < 10 ^ d.digits.repr.length :=
    (Nat.length_repr_le_iff hlength).1 (Nat.le_refl _)
  have hlow : 10 ^ (d.digits.repr.length - 1) ≤ d.digits := by
    by_contra hsmall
    rcases Nat.eq_zero_or_pos (d.digits.repr.length - 1) with hone | hpos
    · rw [hone] at hsmall
      omega
    · have hle := (Nat.length_repr_le_iff hpos).2 (not_le.1 hsmall)
      omega
  generalize d.digits.repr.length = length at *
  obtain ⟨length, rfl⟩ := Nat.exists_eq_succ_of_ne_zero hlength.ne'
  have hlow : (10 : ℚ) ^ (length : ℤ) ≤ d.digits := by
    rw [zpow_natCast]
    exact_mod_cast hlow
  have hhigh : (d.digits : ℚ) < 10 ^ ((length.succ : ℕ) : ℤ) := by
    rw [zpow_natCast]
    exact_mod_cast hhigh
  rw [value, Nat.cast_succ] at *
  constructor
  · calc (10 : ℚ) ^ (d.exponent + (length + 1) - 1) = 10 ^ (length : ℤ) * 10 ^ d.exponent := by
          rw [← zpow_add₀ (by norm_num)]; congr 1; ring
      _ ≤ d.digits * 10 ^ d.exponent := by gcongr
  · calc d.digits * (10 : ℚ) ^ d.exponent < 10 ^ ((length : ℤ) + 1) * 10 ^ d.exponent := by gcongr
      _ = 10 ^ (d.exponent + (length + 1)) := by
          rw [← zpow_add₀ (by norm_num)]; congr 1; ring

/-- The leading digit of a decimal that rounds to a double is not far from the point. -/
theorem leading_mem_of_rounds {b : Binary} (hb : b.Canonical) (hpos : 0 < b.mantissa) {d : Decimal}
    (hdigits : 0 < d.digits) (h : b.Rounds d.value) :
    -400 ≤ d.exponent + d.digits.repr.length - 1 ∧ d.exponent + d.digits.repr.length - 1 ≤ 400 := by
  obtain ⟨hlow, hhigh⟩ := leading_spec hdigits
  have hone : (1 : ℚ) ≤ b.mantissa := by exact_mod_cast hpos
  have hmantissa : (b.mantissa : ℚ) + 1 ≤ 2 ^ 53 := by exact_mod_cast hb.mantissa_lt
  have hleast : (10 : ℚ) ^ (-400 : ℤ) ≤ d.value := by
    calc (10 : ℚ) ^ (-400 : ℤ) ≤ 2 ^ (-1075 : ℤ) :=
          ten_zpow_le_two_zpow (fun h => absurd h (by decide)) (fun _ => by decide)
      _ = 1 / 2 * 2 ^ (-1074 : ℤ) := by
        rw [show (-1075 : ℤ) = -1074 - 1 from rfl, zpow_sub_one₀ (by norm_num)]
        ring
      _ ≤ (b.mantissa - 1 / 2) * 2 ^ b.exponent :=
        mul_le_mul (by linarith) (zpow_le_zpow_right₀ (by norm_num) hb.least) (by positivity)
          (by linarith)
      _ ≤ d.value := b.le_lower.trans h.lower_le
  have hgreatest : d.value ≤ 10 ^ (400 : ℤ) := by
    have hpower : (10 : ℚ) ^ (-400 : ℤ) ≤ 2 ^ (-1024 : ℤ) :=
      ten_zpow_le_two_zpow (fun h => absurd h (by decide)) (fun _ => by decide)
    rw [zpow_neg, zpow_neg, inv_le_inv₀ (by positivity) (by positivity)] at hpower
    calc d.value ≤ (b.mantissa + 1 / 2) * 2 ^ b.exponent := h.le_upper
      _ ≤ 2 ^ 53 * 2 ^ (971 : ℤ) :=
        mul_le_mul (by linarith) (zpow_le_zpow_right₀ (by norm_num) hb.greatest) (by positivity)
          (by positivity)
      _ = 2 ^ (1024 : ℤ) := by
        rw [show (1024 : ℤ) = (53 : ℕ) + 971 from rfl, zpow_add₀ (by norm_num), zpow_natCast]
      _ ≤ 10 ^ (400 : ℤ) := hpower
  have hupper := (zpow_lt_zpow_iff_right₀ (by norm_num)).1 (hleast.trans_lt hhigh)
  have hlower := (zpow_le_zpow_iff_right₀ (by norm_num)).1 (hlow.trans hgreatest)
  omega

/-- A decimal that rounds to a magnitude has its bits. -/
theorem bits_of_rounds {b : Binary} (hb : b.Canonical) (hpos : 0 < b.mantissa) {d : Decimal}
    (hdigits : 0 < d.digits) (h : b.Rounds d.value) :
    d.bits = magnitudeBits b.mantissa b.exponent := by
  obtain ⟨hleast, hgreatest⟩ := leading_mem_of_rounds hb hpos hdigits h
  have hdenominator : 0 < Nat.pow 10 (-d.exponent).toNat := Nat.pow_pos (by decide)
  rw [value_eq_div] at h
  unfold bits
  dsimp only
  rw [if_neg hdigits.ne', if_neg (not_lt.2 hgreatest), if_neg (not_lt.2 hleast),
    nearestBits_of_rounds hb hpos hdenominator h, Nat.min_eq_right]
  have hmantissa := hb.mantissa_lt
  have hgreatest := hb.greatest
  unfold magnitudeBits infinityBits leadingBit at *
  omega

end Decimal

end DeferredReward
