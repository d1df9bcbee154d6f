import Mathlib.Algebra.BigOperators.Field
import Mathlib.Algebra.Order.BigOperators.Ring.Finset
import Mathlib.Tactic.FieldSimp
import Mathlib.Tactic.Linarith
import Mathlib.Tactic.NormNum
import DeferredReward.Proofs.Loss
import DeferredReward.Proofs.Matrix.Rows

/-!
# The loss and its tangents

In the exact arithmetic of any ordered field, such as the rational numbers, the
slope of the loss is its derivative with an explicit error: a change of the
predictions changes the loss by at least what the slope says, and by at most half
the mean square of the change more.

Both bounds come from one description of the slope of a single deviation: it is
the number between minus one and one that is nearest to the deviation. The loss
is a quadratic formula in the deviation and this number, the same on both sides of
the joints, so no case distinction is left when a change crosses them.

Main statements: `smoothDistance_eq`, `tangentGap_mem`, `smoothLoss_near_tangent`.
-/

namespace DeferredReward

section Exact

variable {K : Type} [Field K] [LinearOrder K]

/-- The exact arithmetic of an ordered field: no number is undefined or infinite. -/
local instance exactArithmetic : Arithmetic K where
  less x y := decide (x < y)
  atMost x y := decide (x ≤ y)
  isNaN _ := false
  isFinite _ := true

/-! ## One deviation -/

/-- The slope of the loss of one deviation. -/
def smoothSlope (d : K) : K := Arithmetic.clamp (-1) 1 d

/-- The slope is the deviation itself, or the end of the interval that it has passed. -/
theorem smoothSlope_cases (d : K) :
    (d < -1 ∧ smoothSlope d = -1) ∨ ((-1 ≤ d ∧ d ≤ 1) ∧ smoothSlope d = d) ∨
      (1 < d ∧ smoothSlope d = 1) := by
  have hslope : smoothSlope d = if d < -1 then -1 else if 1 < d then 1 else d := by
    simp only [smoothSlope, Arithmetic.clamp, Arithmetic.less, decide_eq_true_eq]
  rw [hslope]
  by_cases hlow : d < -1
  · rw [if_pos hlow]
    exact .inl ⟨hlow, rfl⟩
  · rw [if_neg hlow]
    by_cases hhigh : 1 < d
    · rw [if_pos hhigh]
      exact .inr (.inr ⟨hhigh, rfl⟩)
    · rw [if_neg hhigh]
      exact .inr (.inl ⟨⟨not_lt.1 hlow, not_lt.1 hhigh⟩, rfl⟩)

/-- The mean loss of matrices, as a sum over their elements. -/
theorem meanLoss_eq_sum (expected predicted : Matrix K) : meanLoss expected predicted =
    (∑ i ∈ Finset.range predicted.rows, ∑ j ∈ Finset.range predicted.cols,
      smoothDistance (predicted.entry i j - expected.entry i j)) / (predicted.size : K) := by
  refine congrArg (· / (predicted.size : K)) ((Matrix.total_eq_sum _).trans ?_)
  refine Finset.sum_congr rfl fun i hi => Finset.sum_congr rfl fun j hj => ?_
  have hi : i < predicted.rows := Finset.mem_range.1 hi
  have hj : j < predicted.cols := Finset.mem_range.1 hj
  rw [Matrix.entry_map smoothDistance (deviations expected predicted) hi hj, deviations,
    Matrix.entry_zip _ _ _ hi hj]

/-- What the slope of the mean loss says of a change, as a sum over the elements. -/
theorem pairing_meanLossSlope {expected predicted : Matrix K}
    (hexpected : expected.shape = predicted.shape) (hsize : 1 ≤ predicted.size)
    (step : Matrix K) : (meanLossSlope expected predicted).pairing step =
    (∑ i ∈ Finset.range predicted.rows, ∑ j ∈ Finset.range predicted.cols,
      smoothSlope (predicted.entry i j - expected.entry i j) * step.entry i j) /
        (predicted.size : K) := by
  obtain ⟨hrows, hcols⟩ := Matrix.shape_eq_iff.1 hexpected
  have hshare : max expected.size 1 = predicted.size := by
    rw [Matrix.size, hrows, hcols]
    exact max_eq_left hsize
  rw [Matrix.pairing_eq_sum, Finset.sum_div]
  refine Finset.sum_congr rfl fun i hi => ?_
  rw [Finset.sum_div]
  refine Finset.sum_congr rfl fun j hj => ?_
  have hi : i < predicted.rows := Finset.mem_range.1 hi
  have hj : j < predicted.cols := Finset.mem_range.1 hj
  rw [meanLossSlope, Matrix.entry_map _ (deviations expected predicted) hi hj, deviations,
    Matrix.entry_zip _ _ _ hi hj, hshare]
  exact div_mul_eq_mul_div _ _ _

/-- What the loss of one deviation gains beyond its tangent when the deviation
changes by `h`. -/
def tangentGap (d h : K) : K := smoothDistance (d + h) - smoothDistance d - smoothSlope d * h

/-- What the mean loss gains beyond its tangent is the mean over the elements. -/
theorem meanLoss_sub_tangent {expected predicted : Matrix K}
    (hexpected : expected.shape = predicted.shape) (hsize : 1 ≤ predicted.size)
    (step : Matrix K) :
    meanLoss expected (Matrix.zip (· + ·) predicted step) - meanLoss expected predicted -
        (meanLossSlope expected predicted).pairing step =
      (∑ i ∈ Finset.range predicted.rows, ∑ j ∈ Finset.range predicted.cols,
        tangentGap (predicted.entry i j - expected.entry i j) (step.entry i j)) /
          (predicted.size : K) := by
  have hstepped : meanLoss expected (Matrix.zip (· + ·) predicted step) =
      (∑ i ∈ Finset.range predicted.rows, ∑ j ∈ Finset.range predicted.cols,
        smoothDistance (predicted.entry i j - expected.entry i j + step.entry i j)) /
          (predicted.size : K) := by
    rw [meanLoss_eq_sum]
    refine congrArg (· / (predicted.size : K)) ?_
    refine Finset.sum_congr rfl fun i hi => Finset.sum_congr rfl fun j hj => ?_
    rw [Matrix.entry_zip _ _ _ (Finset.mem_range.1 hi) (Finset.mem_range.1 hj),
      sub_add_eq_add_sub]
  rw [hstepped, meanLoss_eq_sum, pairing_meanLossSlope hexpected hsize, ← sub_div, ← sub_div]
  simp only [← Finset.sum_sub_distrib]
  rfl

section Ordered

variable [IsStrictOrderedRing K]

theorem magnitude_eq_abs (x : K) : Arithmetic.magnitude x = |x| := by
  simp only [Arithmetic.magnitude, Arithmetic.less, decide_eq_true_eq]
  split
  · rename_i hneg
    exact (abs_of_neg hneg).symm
  · rename_i hnonneg
    exact (abs_of_nonneg (not_lt.1 hnonneg)).symm

theorem smoothSlope_mem (d : K) : -1 ≤ smoothSlope d ∧ smoothSlope d ≤ 1 := by
  obtain ⟨_, h⟩ | ⟨hd, h⟩ | ⟨_, h⟩ := smoothSlope_cases d <;> rw [h]
  · exact ⟨le_rfl, by norm_num⟩
  · exact hd
  · exact ⟨by norm_num, le_rfl⟩

/-- The slope is the number between minus one and one that is nearest to the
deviation: seen from it, no other one lies on the deviation's side. -/
theorem smoothSlope_nearest {e : K} (he : -1 ≤ e ∧ e ≤ 1) (d : K) :
    (e - smoothSlope d) * (d - smoothSlope d) ≤ 0 := by
  obtain ⟨hd, h⟩ | ⟨_, h⟩ | ⟨hd, h⟩ := smoothSlope_cases d <;> rw [h]
  · exact mul_nonpos_of_nonneg_of_nonpos (by linarith) (by linarith)
  · rw [sub_self, mul_zero]
  · exact mul_nonpos_of_nonpos_of_nonneg (by linarith) (by linarith)

/-- The loss of one deviation in terms of its slope, in one formula for both branches. -/
theorem smoothDistance_eq (d : K) :
    smoothDistance d = smoothSlope d * d - smoothSlope d * smoothSlope d / 2 := by
  have hdistance : smoothDistance d = if |d| < 1 then 0.5 * d * d else |d| - 0.5 := by
    simp only [smoothDistance, magnitude_eq_abs, Arithmetic.less, decide_eq_true_eq]
  rw [hdistance]
  obtain ⟨hd, h⟩ | ⟨⟨hlow, hhigh⟩, h⟩ | ⟨hd, h⟩ := smoothSlope_cases d <;> rw [h]
  · have habs : |d| = -d := abs_of_neg (by linarith)
    rw [habs, if_neg (by linarith)]
    norm_num
  · rcases (abs_le.2 ⟨hlow, hhigh⟩).lt_or_eq with hinside | hjoint
    · rw [if_pos hinside]
      norm_num
      ring
    · -- At the joints both branches give one half.
      have hsquare : d * d = 1 := by rw [← abs_mul_abs_self, hjoint, mul_one]
      rw [hjoint, if_neg (lt_irrefl 1), hsquare]
      norm_num
  · have habs : |d| = d := abs_of_pos (by linarith)
    rw [habs, if_neg (by linarith)]
    norm_num

/-- The loss of one deviation is never below its tangents, and never above them by
more than half the square of the change. -/
theorem tangentGap_mem (d h : K) : 0 ≤ tangentGap d h ∧ tangentGap d h ≤ h * h / 2 := by
  have hbefore := smoothSlope_nearest (smoothSlope_mem (d + h)) d
  have hafter := smoothSlope_nearest (smoothSlope_mem d) (d + h)
  unfold tangentGap
  rw [smoothDistance_eq, smoothDistance_eq]
  generalize smoothSlope d = c at hbefore hafter ⊢
  generalize smoothSlope (d + h) = e at hbefore hafter ⊢
  constructor
  · have hapart := mul_self_nonneg (c - e)
    linarith
  · have hapart := mul_self_nonneg (h - (e - c))
    linarith

/-! ## Matrices -/

variable {expected predicted step : Matrix K}

/-- In exact arithmetic, for matrices of one shape with at least one element: when
the predictions change by a step, their loss changes by what its slope says of the
step and by something more, which is not negative and at most half the mean square
of the step. -/
theorem smoothLoss_near_tangent (hexpected : expected.shape = predicted.shape)
    (hstep : step.shape = predicted.shape) (hsize : 1 ≤ predicted.size) :
    ∃ stepped before after slope,
      Matrix.combine (· + ·) predicted step = .ok stepped ∧
      smoothLoss expected predicted = .ok (some before) ∧
      smoothLoss expected stepped = .ok (some after) ∧
      smoothLossSlope expected predicted = .ok slope ∧ slope.shape = predicted.shape ∧
      0 ≤ after - before - slope.pairing step ∧
      after - before - slope.pairing step ≤ 1 / (2 * predicted.size) * step.pairing step := by
  have hnonempty : predicted.size ≠ 0 := Nat.ne_of_gt hsize
  have hpos : (0 : K) < predicted.size := Nat.cast_pos.2 hsize
  have hstepped := Matrix.combine_of_shape_eq (fun p h : K => p + h) hstep
  have hloss : ∀ q : Matrix K, q.shape = predicted.shape →
      smoothLoss expected q = .ok (some (meanLoss expected q)) := by
    intro q hq
    obtain ⟨hrows, hcols⟩ := Matrix.shape_eq_iff.1 hq
    have hsame : q.size = predicted.size := by
      rw [Matrix.size, hrows, hcols]
      rfl
    rw [smoothLoss_eq (hexpected.trans hq.symm), if_neg (hsame ▸ hnonempty)]
  refine ⟨_, _, _, _, hstepped, hloss predicted rfl, hloss _ rfl, smoothLossSlope_eq hexpected, rfl,
    ?_, ?_⟩
  · rw [meanLoss_sub_tangent hexpected hsize]
    refine div_nonneg (Finset.sum_nonneg fun i _ => Finset.sum_nonneg fun j _ => ?_) hpos.le
    exact (tangentGap_mem _ _).1
  · obtain ⟨hrows, hcols⟩ := Matrix.shape_eq_iff.1 hstep
    have hmean : 1 / (2 * (predicted.size : K)) * step.pairing step =
        (∑ i ∈ Finset.range predicted.rows, ∑ j ∈ Finset.range predicted.cols,
          step.entry i j * step.entry i j / 2) / (predicted.size : K) := by
      rw [Matrix.pairing_eq_sum, hrows, hcols]
      simp only [← Finset.sum_div]
      field_simp
    rw [meanLoss_sub_tangent hexpected hsize, hmean]
    refine div_le_div_of_nonneg_right
      (Finset.sum_le_sum fun i _ => Finset.sum_le_sum fun j _ => ?_) hpos.le
    exact (tangentGap_mem _ _).2

/-- Two rational predictions of zero, one inside the joints and one outside,
exchange their places: the first leaves the interval, the second enters it. -/
theorem smoothLoss_near_tangent_acrossJoints :
    ∃ stepped before after slope,
      Matrix.combine (· + ·) (.column #[1 / 2, 3] : Matrix ℚ) (.column #[1, -3]) = .ok stepped ∧
      smoothLoss (.column #[0, 0]) (.column #[1 / 2, 3] : Matrix ℚ) = .ok (some before) ∧
      smoothLoss (.column #[0, 0]) stepped = .ok (some after) ∧
      smoothLossSlope (.column #[0, 0]) (.column #[1 / 2, 3] : Matrix ℚ) = .ok slope ∧
      0 ≤ after - before - slope.pairing (.column #[1, -3]) ∧
      after - before - slope.pairing (.column #[1, -3]) ≤ 5 / 2 := by
  have hexpected : (.column #[0, 0] : Matrix ℚ).shape =
      (.column #[1 / 2, 3] : Matrix ℚ).shape := rfl
  have hstep : (.column #[1, -3] : Matrix ℚ).shape = (.column #[1 / 2, 3] : Matrix ℚ).shape := rfl
  obtain ⟨stepped, before, after, slope, hstepped, hbefore, hafter, hslope, _, hlow, hhigh⟩ :=
    smoothLoss_near_tangent hexpected hstep (by decide)
  have hbound : 1 / (2 * ((.column #[1 / 2, 3] : Matrix ℚ).size : ℚ)) *
      (.column #[1, -3] : Matrix ℚ).pairing (.column #[1, -3]) = 5 / 2 := by
    decide +kernel
  exact ⟨stepped, before, after, slope, hstepped, hbefore, hafter, hslope, hlow,
    hhigh.trans_eq hbound⟩

end Ordered

end Exact

end DeferredReward
