import DeferredReward.Proofs.Arithmetic.Exact
import DeferredReward.Proofs.Network.Rows

/-!
# A batch is the mean of its rows

In exact arithmetic the loss of a batch is the mean of the losses of its rows, and
each element of its gradients is the mean of those of the gradients of its rows.
The number of rows enters once, where the slope of the loss is shared among the
elements; everything behind it adds up.

Main statements: `lossFor_eq_mean`, `element_trainedOn`, `passes_average`.
-/

namespace DeferredReward.Network

/-! ## Means over the rows -/

variable {expected predicted : Matrix ℝ} {rows : ℕ}

/-- The loss of a column of predictions. -/
theorem meanLoss_column (hpredicted : predicted.shape = ⟨rows, 1⟩) :
    meanLoss expected predicted = (∑ r ∈ Finset.range rows,
      smoothDistance (predicted.entry r 0 - expected.entry r 0)) / rows := by
  obtain ⟨hrows, hcols⟩ := Matrix.shape_eq_iff.1 hpredicted
  have hsize : predicted.size = rows := by rw [Matrix.size, hrows, hcols, Nat.mul_one]
  have htotal : ((deviations expected predicted).map smoothDistance).total =
      ∑ r ∈ Finset.range predicted.rows,
        ((deviations expected predicted).map smoothDistance).entry r 0 :=
    Matrix.total_column hcols
  rw [meanLoss, htotal, hsize, hrows]
  refine congrArg (· / (rows : ℝ)) (Finset.sum_congr rfl fun r hr => ?_)
  have hr : r < predicted.rows := hrows ▸ Finset.mem_range.1 hr
  have hzero : 0 < predicted.cols := hcols ▸ Nat.one_pos
  rw [Matrix.entry_map smoothDistance (deviations expected predicted) hr hzero, deviations,
    Matrix.entry_zip _ _ _ hr hzero]

/-- The loss of a column is the mean of the losses of its elements. -/
theorem meanLoss_eq_mean (hpredicted : predicted.shape = ⟨rows, 1⟩)
    (hexpected : expected.shape = ⟨rows, 1⟩) :
    meanLoss expected predicted =
      (∑ r ∈ Finset.range rows, meanLoss (expected.rowAt r) (predicted.rowAt r)) / rows := by
  have hpcols := Matrix.cols_of_shape hpredicted
  have hecols := Matrix.cols_of_shape hexpected
  rw [meanLoss_column hpredicted]
  refine congrArg (· / (rows : ℝ)) (Finset.sum_congr rfl fun r _ => ?_)
  have hone : (predicted.rowAt r).shape = ⟨1, 1⟩ := hpcols ▸ predicted.shape_rowAt r
  rw [meanLoss_column hone, Finset.sum_range_one, Nat.cast_one, div_one,
    Matrix.entry_rowAt predicted r (hpcols ▸ Nat.one_pos),
    Matrix.entry_rowAt expected r (hecols ▸ Nat.one_pos)]

/-- The slope of the loss in an element. -/
theorem entry_meanLossSlope {r j : ℕ} (hr : r < predicted.rows) (hj : j < predicted.cols) :
    (meanLossSlope expected predicted).entry r j =
      Arithmetic.clamp (-1) 1 (predicted.entry r j - expected.entry r j) /
        ((max expected.size 1 : ℕ) : ℝ) := by
  rw [meanLossSlope, Matrix.entry_map _ (deviations expected predicted) hr hj, deviations,
    Matrix.entry_zip _ _ _ hr hj]

/-- The slope of the loss of a column shares the slopes of its elements. -/
theorem isScaled_meanLossSlope (hpredicted : predicted.shape = ⟨rows, 1⟩)
    (hexpected : expected.shape = ⟨rows, 1⟩) :
    Matrix.IsScaled (1 / (rows : ℝ)) (meanLossSlope expected predicted)
      fun r => meanLossSlope (expected.rowAt r) (predicted.rowAt r) := by
  obtain ⟨hprows, hpcols⟩ := Matrix.shape_eq_iff.1 hpredicted
  obtain ⟨herows, hecols⟩ := Matrix.shape_eq_iff.1 hexpected
  refine ⟨fun r _ => rfl, fun r hr j hj => ?_⟩
  change r < predicted.rows at hr
  change j < predicted.cols at hj
  have hwhole : max expected.size 1 = rows := by
    rw [Matrix.size, herows, hecols]
    omega
  have hrow : max (expected.rowAt r).size 1 = 1 := by
    rw [Matrix.size, Matrix.rows_of_shape (expected.shape_rowAt r),
      Matrix.cols_of_shape (expected.shape_rowAt r), hecols]
    rfl
  have hone : (0 : ℕ) < (predicted.rowAt r).rows := Nat.one_pos
  rw [entry_meanLossSlope hr hj, entry_meanLossSlope hone hj, hwhole, hrow,
    Matrix.entry_rowAt predicted r hj, Matrix.entry_rowAt expected r (by omega), Nat.cast_one,
    div_one, one_div_mul_eq_div]

/-! ## The passes of a batch -/

section Batch

variable {layers : List (Layer ℝ)} {width : ℕ} {x : Matrix ℝ}

/-- The loss of a batch is the mean of the losses of its rows. -/
theorem lossFor_eq_mean (hchained : Chained width layers 1) (hx : x.shape = ⟨rows, width⟩)
    (hexpected : expected.shape = ⟨rows, 1⟩) :
    lossFor layers x expected =
      (∑ r ∈ Finset.range rows, lossFor layers (x.rowAt r) (expected.rowAt r)) / rows := by
  obtain ⟨hrows, hcols⟩ := Matrix.shape_eq_iff.1 hx
  obtain ⟨_, hshape⟩ := predictThrough_eq hchained hcols
  rw [hrows] at hshape
  rw [lossFor, meanLoss_eq_mean hshape hexpected]
  refine congrArg (· / (rows : ℝ)) (Finset.sum_congr rfl fun r hr => ?_)
  rw [rowAt_outputThrough layers (hrows ▸ Finset.mem_range.1 hr)]
  rfl

/-- The gradients of a batch are the means of the gradients of its rows. -/
theorem element_trainedOn (hchained : Chained width layers 1) (hx : x.shape = ⟨rows, width⟩)
    (hexpected : expected.shape = ⟨rows, 1⟩) (name : String) (row col : ℕ) :
    (trainedOn layers x expected).gradients.element name row col =
      1 / (rows : ℝ) * ∑ r ∈ Finset.range rows,
        (trainedOn layers (x.rowAt r) (expected.rowAt r)).gradients.element name row col := by
  obtain ⟨hrows, hcols⟩ := Matrix.shape_eq_iff.1 hx
  obtain ⟨_, hshape⟩ := predictThrough_eq hchained hcols
  rw [hrows] at hshape
  have hscaled := isScaled_meanLossSlope hshape hexpected
  have hslopeShape : (meanLossSlope expected (outputThrough layers x)).shape = ⟨x.rows, 1⟩ := by
    rw [hrows]
    exact hshape
  have hsum := elementOf_renewedThrough hchained hcols hslopeShape (fun r _ => rfl) hscaled 0 name
    row col
  rw [element_gradients, trainedOn, hsum, hrows]
  refine congrArg (1 / (rows : ℝ) * ·) (Finset.sum_congr rfl fun r hr => ?_)
  rw [element_gradients, trainedOn, rowAt_outputThrough layers (hrows ▸ Finset.mem_range.1 hr)]

/-- The passes of a predictor on a batch give the means of what they give on its rows. -/
theorem passes_average {network : Network ℝ} (h : network.IsPredictor width) (hrows : rows ≠ 0)
    (hx : x.shape = ⟨rows, width⟩) (hexpected : expected.shape = ⟨rows, 1⟩) :
    ∃ loss gradients after, ∃ losses : ℕ → ℝ, ∃ shares : ℕ → Parameters ℝ, ∃ afters : ℕ → Network ℝ,
      network.passes x expected = .ok (.ok (some loss, gradients), after) ∧
      (∀ r < rows, network.passes (x.rowAt r) (expected.rowAt r) =
        .ok (.ok (some (losses r), shares r), afters r)) ∧
      loss = (∑ r ∈ Finset.range rows, losses r) / rows ∧
      gradients.layout = network.parameters.layout ∧
      (∀ r < rows, (shares r).layout = network.parameters.layout) ∧
      ∀ name row col, gradients.element name row col =
        1 / (rows : ℝ) * ∑ r ∈ Finset.range rows, (shares r).element name row col := by
  have hrow : ∀ r, (x.rowAt r).shape = ⟨1, width⟩ ∧ (expected.rowAt r).shape = ⟨1, 1⟩ := fun r =>
    ⟨Matrix.cols_of_shape hx ▸ x.shape_rowAt r,
      Matrix.cols_of_shape hexpected ▸ expected.shape_rowAt r⟩
  obtain ⟨hpasses, hlayout⟩ := passes_eq h hx hexpected hrows
  have hshares := fun r => passes_eq h (hrow r).1 (hrow r).2 Nat.one_ne_zero
  exact ⟨_, _, _, _, _, _, hpasses, fun r _ => (hshares r).1,
    lossFor_eq_mean h.chained hx hexpected, hlayout, fun r _ => (hshares r).2,
    element_trainedOn h.chained hx hexpected⟩

end Batch

end DeferredReward.Network
