import DeferredReward.Arithmetic
import Mathlib.Analysis.Complex.Trigonometric
import Mathlib.Analysis.Real.Sqrt

/-!
# Exact arithmetic

The real numbers as an arithmetic of training. What a run computes in doubles,
with rounding, is then read as a formula over the reals, so that bounds and
closed forms of whole runs can be stated. No real number is undefined or
infinite. Powers by repeated squaring are powers in every commutative monoid.

Main statements: `powerOnto_eq`, `power_natCast`, `larger_eq_max`, `abs_clamp_le`,
`mean_mem_between`.
-/

namespace DeferredReward

-- Formulas about real numbers divide, and read decimals, as in every field; these
-- instances are found before those of an arithmetic.
noncomputable instance divReal : Div ℝ := DivInvMonoid.toDiv

noncomputable instance ofScientificReal : OfScientific ℝ := NNRatCast.toOfScientific

noncomputable instance : Arithmetic ℝ where
  less x y := decide (x < y)
  atMost x y := decide (x ≤ y)
  isNaN _ := false
  isFinite _ := true

noncomputable instance : Analysis ℝ where
  sqrt := Real.sqrt
  exp := Real.exp
  tanh := Real.tanh
  pointBetween low high draw := low + (high - low) * (draw / 2 ^ 52)

namespace Arithmetic

@[simp] theorem less_eq (x y : ℝ) : less x y = decide (x < y) := rfl

@[simp] theorem atMost_eq (x y : ℝ) : atMost x y = decide (x ≤ y) := rfl

@[simp] theorem isFinite_eq (x : ℝ) : isFinite x = true := rfl

/-- Repeated squaring gives the power. -/
theorem powerOnto_eq {M : Type} [CommMonoid M] (total base : M) (exponent : ℕ) :
    powerOnto total base exponent = total * base ^ exponent := by
  -- By strong induction: the rest of the digits are those of half the exponent.
  induction exponent using Nat.strong_induction_on generalizing total base with
  | _ exponent ih =>
    have hhalf : 2 * (exponent / 2) + exponent % 2 = exponent := Nat.div_add_mod exponent 2
    have hsquare : (base * base) ^ (exponent / 2) = base ^ (2 * (exponent / 2)) := by
      rw [pow_mul, pow_two]
    have hdigit : (if exponent % 2 = 1 then total * base else total) =
        total * base ^ (exponent % 2) := by
      rcases Nat.mod_two_eq_zero_or_one exponent with h | h
      · simp only [h, Nat.zero_ne_one, if_false, pow_zero, mul_one]
      · simp only [h, if_true, pow_one]
    rw [powerOnto, hdigit]
    split
    · rename_i hlast
      have hexponent : exponent % 2 = exponent := by omega
      rw [hexponent]
    · rename_i hmore
      have hless : exponent / 2 < exponent := by omega
      rw [ih _ hless, hsquare, mul_assoc, ← pow_add, Nat.add_comm, hhalf]

/-- A whole exponent gives the usual power. -/
theorem power_natCast {M : Type} [DivisionCommMonoid M] (base : M) (exponent : ℕ) :
    power base (exponent : ℤ) = base ^ exponent := by
  have hsign : ¬(exponent : ℤ) < 0 := by omega
  rw [power, if_neg hsign, Int.natAbs_natCast, powerOnto_eq, one_mul]

theorem larger_eq_max (x y : ℝ) : larger x y = max x y := by
  unfold larger
  by_cases h : x < y
  · have hless : less x y = true := decide_eq_true h
    rw [hless, if_pos rfl, max_eq_right h.le]
  · have hless : less x y = false := decide_eq_false h
    have hnumber : isNaN x = false := rfl
    rw [hless, hnumber, max_eq_left (not_lt.1 h)]
    rfl

/-- Between a bound and its negative no number is beyond the bound. -/
theorem abs_clamp_le {bound : ℝ} (hbound : 0 ≤ bound) (x : ℝ) :
    |clamp (-bound) bound x| ≤ bound := by
  unfold clamp
  simp only [less_eq, decide_eq_true_eq]
  rw [abs_le]
  split
  · exact ⟨le_rfl, by linarith⟩
  · split
    · exact ⟨by linarith, le_rfl⟩
    · exact ⟨by linarith, by linarith⟩

end Arithmetic

/-- A mean of two numbers lies between them. -/
theorem mean_mem_between {weight low high x y : ℝ} (hpos : 0 ≤ weight) (hle : weight ≤ 1)
    (hx : low ≤ x ∧ x ≤ high) (hy : low ≤ y ∧ y ≤ high) :
    low ≤ weight * x + (1 - weight) * y ∧ weight * x + (1 - weight) * y ≤ high := by
  have hrest : 0 ≤ 1 - weight := by linarith
  have hxlow := mul_le_mul_of_nonneg_left hx.1 hpos
  have hxhigh := mul_le_mul_of_nonneg_left hx.2 hpos
  have hylow := mul_le_mul_of_nonneg_left hy.1 hrest
  have hyhigh := mul_le_mul_of_nonneg_left hy.2 hrest
  constructor <;> linarith

end DeferredReward
