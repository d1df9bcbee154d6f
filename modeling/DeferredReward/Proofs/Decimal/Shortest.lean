import DeferredReward.Proofs.Decimal.Nearest

/-!
# The shortest decimal rounds to its double

Every decimal that the search hits lies between the middles on both sides of the
double. The search always hits one: steps of the finest grid are smaller than
the distance from the double to the middle below it.

Main statement: `shortest_rounds`.
-/

namespace DeferredReward

namespace Decimal

theorem value_succ (digits : ℕ) (exponent : ℤ) :
    (Decimal.mk (digits + 1) exponent).value =
      (Decimal.mk digits exponent).value + 10 ^ exponent := by
  rw [value, value, Nat.cast_succ]
  ring

variable {b : Binary} {factor : ℕ}

/-! ## Neighbourhoods -/

/-- Quarters of the last bit as a quotient of whole numbers. -/
theorem quarters_eq_div (quarters : ℕ) (exponent : ℤ) :
    (quarters / 4 : ℚ) * 2 ^ exponent =
      (quarters * Nat.pow 2 (exponent - 2).toNat : ℕ) / (Nat.pow 2 (2 - exponent).toNat : ℕ) := by
  have hsplit : (2 : ℚ) ^ exponent = 4 * 2 ^ (exponent - 2) := by
    rw [zpow_sub₀ (by norm_num)]
    norm_num
    ring
  rw [hsplit, zpow_eq_div, neg_sub, Nat.pow_eq, Nat.pow_eq]
  push_cast
  ring

/-- A quotient is compared with quarters of the last bit in whole numbers. -/
theorem quarters_le_iff (exponent : ℤ) (quarters numerator : ℕ) (h : 0 < factor) :
    quarters * Nat.pow 2 (exponent - 2).toNat * factor ≤
        numerator * Nat.pow 2 (2 - exponent).toNat ↔
      (quarters / 4 : ℚ) * 2 ^ exponent ≤ numerator / factor := by
  have hfactor : (0 : ℚ) < factor := Nat.cast_pos.2 h
  have hpower : (0 : ℚ) < (Nat.pow 2 (2 - exponent).toNat : ℕ) :=
    Nat.cast_pos.2 (Nat.two_pow_pos _)
  rw [quarters_eq_div, div_le_div_iff₀ hpower hfactor]
  exact_mod_cast Iff.rfl

theorem le_quarters_iff (exponent : ℤ) (quarters numerator : ℕ) (h : 0 < factor) :
    numerator * Nat.pow 2 (2 - exponent).toNat ≤
        quarters * Nat.pow 2 (exponent - 2).toNat * factor ↔
      (numerator / factor : ℚ) ≤ (quarters / 4 : ℚ) * 2 ^ exponent := by
  have hfactor : (0 : ℚ) < factor := Nat.cast_pos.2 h
  have hpower : (0 : ℚ) < (Nat.pow 2 (2 - exponent).toNat : ℕ) :=
    Nat.cast_pos.2 (Nat.two_pow_pos _)
  rw [quarters_eq_div, div_le_div_iff₀ hfactor hpower]
  exact_mod_cast Iff.rfl

theorem lower_eq_quarters (hpos : 0 < b.mantissa) :
    b.lower = ((4 * b.mantissa - if b.narrowBelow then 1 else 2 : ℕ) / 4 : ℚ) * 2 ^ b.exponent := by
  rw [Binary.lower]
  congr 1
  split
  · rw [Nat.cast_sub (by omega)]
    push_cast
    ring
  · rw [Nat.cast_sub (by omega)]
    push_cast
    ring

theorem upper_eq_quarters : b.upper = ((4 * b.mantissa + 2 : ℕ) / 4 : ℚ) * 2 ^ b.exponent := by
  rw [Binary.upper]
  congr 1
  push_cast
  ring

/-- The numerators that a neighbourhood holds are those of numbers that round to the magnitude. -/
theorem holds_iff (hpos : 0 < b.mantissa) (hfactor : 0 < factor) (numerator : ℕ) :
    ((Neighbourhood.ofBinary b).scaled factor).holds
        (numerator * (Neighbourhood.ofBinary b).denominator) = true ↔
      b.Rounds (numerator / factor) := by
  have hlow := quarters_le_iff b.exponent (4 * b.mantissa - if b.narrowBelow then 1 else 2)
    numerator hfactor
  have hnotLow := le_quarters_iff b.exponent (4 * b.mantissa - if b.narrowBelow then 1 else 2)
    numerator hfactor
  have hhigh := le_quarters_iff b.exponent (4 * b.mantissa + 2) numerator hfactor
  have hnotHigh := quarters_le_iff b.exponent (4 * b.mantissa + 2) numerator hfactor
  rw [← lower_eq_quarters hpos] at hlow hnotLow
  rw [← upper_eq_quarters] at hhigh hnotHigh
  unfold Neighbourhood.holds Neighbourhood.scaled Neighbourhood.ofBinary
  dsimp only
  by_cases heven : b.mantissa % 2 = 0
  · rw [if_pos (by simpa using heven), Bool.and_eq_true, decide_eq_true_iff, decide_eq_true_iff,
      hlow, hhigh]
    exact ⟨fun ⟨hlow, hhigh⟩ => ⟨hlow, hhigh, .inl heven⟩, fun h => ⟨h.lower_le, h.le_upper⟩⟩
  · rw [if_neg (by simpa using heven), Bool.and_eq_true, decide_eq_true_iff, decide_eq_true_iff,
      ← not_le, ← not_le, hnotLow, hnotHigh, not_le, not_le]
    exact ⟨fun h => ⟨h.1.le, h.2.le, .inr h⟩, fun h => h.inside.resolve_left heven⟩

/-! ## Grids -/

theorem nearer_cases (tie : Tie) (below rest step : ℕ) :
    nearer tie below rest step = below ∨ nearer tie below rest step = below + 1 := by
  unfold nearer
  split
  · exact .inl rfl
  · exact .inr rfl

/-- The numerator of a multiple of a power of ten. -/
theorem holds_grid_iff (hpos : 0 < b.mantissa) (digits : ℕ) (exponent : ℤ) :
    ((Neighbourhood.ofBinary b).scaled (Nat.pow 10 (-exponent).toNat)).holds
        (digits * (Nat.pow 10 exponent.toNat * (Neighbourhood.ofBinary b).denominator)) = true ↔
      b.Rounds (Decimal.mk digits exponent).value := by
  have hfactor : 0 < Nat.pow 10 (-exponent).toNat := Nat.pow_pos (by decide)
  rw [← Nat.mul_assoc, holds_iff hpos hfactor, value_eq_div]

/-- A hit on a grid rounds to the magnitude. -/
theorem rounds_of_onGrid? (hpos : 0 < b.mantissa) {tie : Tie} {exponent : ℤ} {digits : ℕ}
    (h : onGrid? tie (.ofBinary b) exponent = some digits) :
    0 < digits ∧ b.Rounds (Decimal.mk digits exponent).value := by
  unfold onGrid? at h
  dsimp only at h
  generalize ((Neighbourhood.ofBinary b).scaled (Nat.pow 10 (-exponent).toNat)).value /
    (Nat.pow 10 exponent.toNat * (Neighbourhood.ofBinary b).denominator) = below at h
  have hbelow := holds_grid_iff hpos below exponent
  have habove := holds_grid_iff hpos (below + 1) exponent
  split at h
  · rename_i hlow hhigh
    rw [Bool.and_eq_true, decide_eq_true_iff, hbelow] at hlow
    rw [habove] at hhigh
    obtain rfl := Option.some.inj h
    obtain heq | heq := nearer_cases tie below _ _ <;> rw [heq]
    · exact hlow
    · exact ⟨Nat.succ_pos below, hhigh⟩
  · rename_i hlow _
    rw [Bool.and_eq_true, decide_eq_true_iff, hbelow] at hlow
    obtain rfl := Option.some.inj h
    exact hlow
  · rename_i _ hhigh
    rw [habove] at hhigh
    obtain rfl := Option.some.inj h
    exact ⟨Nat.succ_pos below, hhigh⟩
  · cases h

/-- The magnitude lies between two neighbours on a grid. -/
theorem between_neighbours (b : Binary) (exponent : ℤ) :
    ∃ below, below = ((Neighbourhood.ofBinary b).scaled (Nat.pow 10 (-exponent).toNat)).value /
        (Nat.pow 10 exponent.toNat * (Neighbourhood.ofBinary b).denominator) ∧
      (Decimal.mk below exponent).value ≤ b.mantissa * 2 ^ b.exponent ∧
      b.mantissa * 2 ^ b.exponent < (Decimal.mk below exponent).value + 10 ^ exponent := by
  refine ⟨_, rfl, ?_⟩
  have hfactor : 0 < Nat.pow 10 (-exponent).toNat := Nat.pow_pos (by decide)
  have hwhole : ((4 * b.mantissa : ℕ) / 4 : ℚ) = b.mantissa := by
    push_cast
    ring
  have hstep : 0 < Nat.pow 10 exponent.toNat * (Neighbourhood.ofBinary b).denominator :=
    Nat.mul_pos (Nat.pow_pos (by decide)) (Nat.two_pow_pos _)
  have hfloor := Nat.div_mul_le_self
    ((Neighbourhood.ofBinary b).scaled (Nat.pow 10 (-exponent).toNat)).value
    (Nat.pow 10 exponent.toNat * (Neighbourhood.ofBinary b).denominator)
  have hceiling := Nat.lt_mul_div_succ
    ((Neighbourhood.ofBinary b).scaled (Nat.pow 10 (-exponent).toNat)).value hstep
  rw [mul_comm] at hceiling
  generalize ((Neighbourhood.ofBinary b).scaled (Nat.pow 10 (-exponent).toNat)).value /
    (Nat.pow 10 exponent.toNat * (Neighbourhood.ofBinary b).denominator) = below at *
  have hcompare : ∀ digits : ℕ,
      digits * (Nat.pow 10 exponent.toNat * (Neighbourhood.ofBinary b).denominator) ≤
        ((Neighbourhood.ofBinary b).scaled (Nat.pow 10 (-exponent).toNat)).value ↔
      (Decimal.mk digits exponent).value ≤ b.mantissa * 2 ^ b.exponent := by
    intro digits
    rw [← Nat.mul_assoc, value_eq_div, ← hwhole]
    exact le_quarters_iff b.exponent (4 * b.mantissa) (digits * Nat.pow 10 exponent.toNat) hfactor
  rw [hcompare] at hfloor
  rw [← not_le, hcompare, not_le, value_succ] at hceiling
  exact ⟨hfloor, hceiling⟩

/-- A grid whose step is no more than a quarter of the last bit is hit. -/
theorem exists_onGrid? (hpos : 0 < b.mantissa) (tie : Tie) {exponent : ℤ}
    (hfine : (10 : ℚ) ^ exponent ≤ 2 ^ (b.exponent - 2)) :
    ∃ digits, onGrid? tie (.ofBinary b) exponent = some digits := by
  obtain ⟨below, hbelow, hfloor, hceiling⟩ := between_neighbours b exponent
  have hone : (1 : ℚ) ≤ b.mantissa := by exact_mod_cast hpos
  have hgrid : (0 : ℚ) < 10 ^ exponent := by positivity
  rw [zpow_sub₀ (by norm_num)] at hfine
  norm_num at hfine
  have hlower : b.lower ≤ (b.mantissa - 1 / 4) * 2 ^ b.exponent := by
    unfold Binary.lower
    gcongr
    split <;> norm_num
  have hupper : b.upper = (b.mantissa + 1 / 2) * 2 ^ b.exponent := rfl
  have hpositive : 0 < below := by
    by_contra hzero
    rw [Nat.eq_zero_of_not_pos hzero, value, Nat.cast_zero, zero_mul, zero_add] at hceiling
    nlinarith
  have hrounds : b.Rounds (Decimal.mk below exponent).value := by
    have hinside : b.lower < (Decimal.mk below exponent).value ∧
        (Decimal.mk below exponent).value < b.upper := by
      constructor
      · linarith
      · rw [hupper]
        linarith
    exact ⟨hinside.1.le, hinside.2.le, .inr hinside⟩
  have hhit : (decide (0 < below) &&
      ((Neighbourhood.ofBinary b).scaled (Nat.pow 10 (-exponent).toNat)).holds
        (below * (Nat.pow 10 exponent.toNat * (Neighbourhood.ofBinary b).denominator))) = true := by
    rw [Bool.and_eq_true, decide_eq_true_iff, holds_grid_iff hpos]
    exact ⟨hpositive, hrounds⟩
  unfold onGrid?
  dsimp only
  rw [← hbelow, hhit]
  split
  · exact ⟨_, rfl⟩
  · exact ⟨_, rfl⟩
  · exact ⟨_, rfl⟩
  · contradiction

/-! ## The search -/

/-- What the search finds is a hit on a grid. -/
theorem onGrid?_of_search {tie : Tie} {n : Neighbourhood} {grids : ℕ} {exponent : ℤ} {d : Decimal}
    (h : search tie n grids exponent = some d) : onGrid? tie n d.exponent = some d.digits := by
  induction grids generalizing exponent with
  | zero => cases h
  | succ grids ih =>
    rw [search] at h
    split at h
    · rename_i digits hgrid
      obtain rfl := Option.some.inj h
      exact hgrid
    · exact ih h

/-- The search finds something if one of its grids is hit. -/
theorem exists_search {tie : Tie} {n : Neighbourhood} {grids : ℕ} {exponent : ℤ} (depth : ℕ)
    (hdepth : depth < grids) (h : ∃ digits, onGrid? tie n (exponent - depth) = some digits) :
    ∃ d, search tie n grids exponent = some d := by
  induction grids generalizing exponent depth with
  | zero => cases hdepth
  | succ grids ih =>
    rw [search]
    split
    · exact ⟨_, rfl⟩
    · rename_i hmissed
      cases depth with
      | zero =>
        obtain ⟨digits, hgrid⟩ := h
        rw [Nat.cast_zero, sub_zero, hmissed] at hgrid
        cases hgrid
      | succ depth =>
        refine ih depth (Nat.lt_of_succ_lt_succ hdepth) ?_
        rwa [sub_sub, add_comm 1, ← Nat.cast_succ]

/-- Steps of the last grid are no more than a quarter of the last bit. -/
theorem last_grid_le (hb : b.Canonical) (hpos : 0 < b.mantissa) :
    (10 : ℚ) ^ (exponentAbove b - 23) ≤ 2 ^ (b.exponent - 2) := by
  have hlog : b.mantissa.log2 < 53 := (Nat.log2_lt hpos.ne').2 hb.mantissa_lt
  have hleast := hb.least
  have hgreatest := hb.greatest
  unfold exponentAbove
  refine ten_zpow_le_two_zpow ?_ ?_ <;> omega

/-- The shortest decimal rounds to its magnitude. -/
theorem shortest_rounds (hb : b.Canonical) (hpos : 0 < b.mantissa) (tie : Tie) :
    0 < (shortest tie b).digits ∧ b.Rounds (shortest tie b).value := by
  obtain ⟨d, hd⟩ := exists_search 23 (by decide : 23 < 24)
    (exists_onGrid? hpos tie (last_grid_le hb hpos))
  rw [shortest, if_neg hpos.ne', hd, Option.getD_some]
  exact rounds_of_onGrid? hpos (onGrid?_of_search hd)

end Decimal

end DeferredReward
