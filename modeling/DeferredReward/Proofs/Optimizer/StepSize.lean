import DeferredReward.Proofs.Optimizer.Elements
import Mathlib.Tactic.Linarith
import Mathlib.Tactic.NormNum
import Mathlib.Tactic.Positivity

/-!
# How far a step moves an element

In exact arithmetic and with the usual settings, a step moves an element, decay
apart, by at most eight learning rates, whatever gradients there were. Two facts
carry the bound. The squared mean of the gradients is at most 53 times their mean
square, which every gradient preserves. And the correction for the bias of the
mean square is at most the square of that for the bias of the mean, at every
step number.

Main statements: `balanced_accumulate`, `spread_le`, `abs_descend_sub_le`.
-/

namespace DeferredReward

namespace Moment

/-- The mean square that the divisor of a step is made of. -/
def divisorSquare (keepsPeak : Bool) (m : Moment ℝ) : ℝ := if keepsPeak then m.peak else m.square

/-- The mean of an element's gradients is small against their mean square, and
that is not above the one that the divisor is made of. -/
structure Balanced (keepsPeak : Bool) (m : Moment ℝ) : Prop where
  mean_sq_le : m.mean ^ 2 ≤ 53 * m.square
  square_le : m.square ≤ m.divisorSquare keepsPeak

theorem balanced_zero (keepsPeak : Bool) : (0 : Moment ℝ).Balanced keepsPeak := by
  have hmean : (0 : Moment ℝ).mean = 0 := rfl
  have hsquare : (0 : Moment ℝ).square = 0 := rfl
  have hdivisor : (0 : Moment ℝ).divisorSquare keepsPeak = 0 := ite_self _
  constructor
  · rw [hmean, hsquare]
    norm_num
  · rw [hsquare, hdivisor]

namespace Balanced

variable {keepsPeak : Bool} {m : Moment ℝ}

theorem square_nonneg (h : m.Balanced keepsPeak) : 0 ≤ m.square := by
  have hsq := sq_nonneg m.mean
  have hle := h.mean_sq_le
  linarith

theorem divisorSquare_nonneg (h : m.Balanced keepsPeak) : 0 ≤ m.divisorSquare keepsPeak :=
  h.square_nonneg.trans h.square_le

/-- The mean is at most eight times the root that the divisor is made of. -/
theorem abs_mean_le (h : m.Balanced keepsPeak) : |m.mean| ≤ 8 * √(m.divisorSquare keepsPeak) := by
  have hsq : m.mean ^ 2 ≤ 8 ^ 2 * m.divisorSquare keepsPeak := by
    have hmean := h.mean_sq_le
    have hsquare := h.square_le
    have hnonneg := h.divisorSquare_nonneg
    linarith
  calc |m.mean| ≤ √(8 ^ 2 * m.divisorSquare keepsPeak) := Real.abs_le_sqrt hsq
    _ = 8 * √(m.divisorSquare keepsPeak) := by
      rw [Real.sqrt_mul (by norm_num), Real.sqrt_sq (by norm_num)]

end Balanced

end Moment

namespace Optimizer

/-- The settings that no configuration changes. -/
structure Usual (o : Optimizer ℝ) : Prop where
  keepMean : o.keepMean = 9 / 10
  keepSquare : o.keepSquare = 999 / 1000
  margin : o.margin = 1e-8

theorem usual_ofRate (learningRate : ℝ) : (ofRate learningRate).Usual := by
  constructor <;> norm_num [ofRate]

variable {o : Optimizer ℝ} {m : Moment ℝ}

/-- No step changes the settings. -/
theorem Usual.after (h : o.Usual) (parameters gradients : Parameters ℝ) :
    (o.after parameters gradients).Usual :=
  ⟨h.keepMean, h.keepSquare, h.margin⟩

/-- The quadratic form by which a gradient cannot unbalance a moment is positive. -/
theorem mean_sq_le_of_gradient {mean square : ℝ} (h : mean ^ 2 ≤ 53 * square) (g : ℝ) :
    (9 / 10 * mean + (1 - 9 / 10) * g) ^ 2 ≤
      53 * (999 / 1000 * square + (1 - 999 / 1000) * g * g) := by
  have hform : 0 ≤ (189 / 1000) * (mean - (90 / 189) * g) ^ 2 + (27 / 189000) * g ^ 2 := by
    positivity
  nlinarith

/-- No gradient unbalances a moment. -/
theorem balanced_accumulate (ho : o.Usual) (h : m.Balanced o.keepsPeak) (g : ℝ) :
    (o.accumulate m g).Balanced o.keepsPeak := by
  constructor
  · have hmean := mean_sq_le_of_gradient h.mean_sq_le g
    unfold accumulate
    dsimp only
    rw [ho.keepMean, ho.keepSquare]
    exact hmean
  · unfold Moment.divisorSquare accumulate
    dsimp only
    split
    · rw [Arithmetic.larger_eq_max]
      exact le_max_right _ _
    · exact le_rfl

/-- The correction for the bias of the mean square is at most the square of the
correction for the bias of the mean. -/
theorem correction_le_sq (n : ℕ) :
    1 - (999 / 1000 : ℝ) ^ n ≤ (1 - (9 / 10) ^ n) ^ 2 := by
  induction n with
  | zero => norm_num
  | succ n ih =>
    have hpos : (0 : ℝ) ≤ (9 / 10) ^ n := by positivity
    have hle : (9 / 10 : ℝ) ^ n ≤ 1 := pow_le_one₀ (by norm_num) (by norm_num)
    have hmean : (9 / 10 : ℝ) ^ (n + 1) = (9 / 10) ^ n * (9 / 10) := pow_succ _ _
    have hsquare : (999 / 1000 : ℝ) ^ (n + 1) = (999 / 1000) ^ n * (999 / 1000) := pow_succ _ _
    rw [hmean, hsquare]
    nlinarith

/-- The power of a positive step number is below one for a base between zero and one. -/
theorem power_lt_one (base : ℝ) (hpos : 0 < base) (hlt : base < 1) {count : Int32}
    (hcount : 0 < count.toInt) :
    Arithmetic.power base count.toInt = base ^ count.toInt.toNat ∧
      base ^ count.toInt.toNat < 1 := by
  have hnat : ((count.toInt.toNat : ℕ) : ℤ) = count.toInt := Int.toNat_of_nonneg hcount.le
  have hne : count.toInt.toNat ≠ 0 := by omega
  constructor
  · rw [← hnat, Arithmetic.power_natCast, hnat]
  · exact pow_lt_one₀ hpos.le hlt hne

/-- At a step of a positive number, the learning rate is divided by a correction
that is not below the number that scales the divisor. -/
theorem spread_le (ho : o.Usual) {count : Int32} (hcount : 0 < count.toInt) :
    ∃ correction : ℝ, (o.schedule count).rate = o.learningRate / correction ∧
      0 < (o.schedule count).spread ∧ (o.schedule count).spread ≤ correction := by
  obtain ⟨hmean, hmeanlt⟩ := power_lt_one (9 / 10) (by norm_num) (by norm_num) hcount
  obtain ⟨hsquare, hsquarelt⟩ := power_lt_one (999 / 1000) (by norm_num) (by norm_num) hcount
  have hspread : (o.schedule count).spread =
      √(1 - (999 / 1000) ^ count.toInt.toNat) := by
    rw [← hsquare, ← ho.keepSquare]
    rfl
  refine ⟨1 - (9 / 10) ^ count.toInt.toNat, ?_, ?_, ?_⟩
  · rw [← hmean, ← ho.keepMean]
    rfl
  · rw [hspread]
    exact Real.sqrt_pos.2 (sub_pos.2 hsquarelt)
  · rw [hspread]
    exact Real.sqrt_le_left (sub_pos.2 hmeanlt).le |>.2 (correction_le_sq _)

/-- A mean of at most eight roots, corrected by no less than the number that the
root is divided by, makes a move of at most eight rates. -/
theorem abs_move_le {rate correction spread root margin mean : ℝ} (hrate : 0 ≤ rate)
    (hspread : 0 < spread) (hle : spread ≤ correction) (hmargin : 0 < margin) (hroot : 0 ≤ root)
    (hmean : |mean| ≤ 8 * root) :
    |rate / correction * mean / (root / spread + margin)| ≤ 8 * rate := by
  have hcorrection : 0 < correction := hspread.trans_le hle
  have hscaled : 0 ≤ root / spread := by positivity
  have hdivisor : 0 < root / spread + margin := by positivity
  have hcorrected : |mean| / correction ≤ 8 * (root / spread) := by
    calc |mean| / correction ≤ |mean| / spread :=
          div_le_div_of_nonneg_left (abs_nonneg _) hspread hle
      _ ≤ 8 * root / spread := div_le_div_of_nonneg_right hmean hspread.le
      _ = 8 * (root / spread) := mul_div_assoc _ _ _
  rw [abs_div, abs_mul, abs_of_pos hdivisor, abs_div, abs_of_nonneg hrate,
    abs_of_pos hcorrection, div_le_iff₀ hdivisor]
  calc rate / correction * |mean| = rate * (|mean| / correction) := by ring
    _ ≤ rate * (8 * (root / spread)) := mul_le_mul_of_nonneg_left hcorrected hrate
    _ ≤ 8 * rate * (root / spread + margin) := by nlinarith

/-- Decay apart, a step moves an element by at most eight learning rates. -/
theorem abs_descend_sub_le (ho : o.Usual) (h : m.Balanced o.keepsPeak) (hrate : 0 ≤ o.learningRate)
    {count : Int32} (hcount : 0 < count.toInt) (x : ℝ) :
    |o.descend (o.schedule count) x m - x * (1 - o.learningRate * o.weightDecay)| ≤
      8 * o.learningRate := by
  obtain ⟨correction, hfactor, hspread, hle⟩ := spread_le ho hcount
  have hmargin : 0 < o.margin := by
    rw [ho.margin]
    norm_num
  have hmove : o.descend (o.schedule count) x m - x * (1 - o.learningRate * o.weightDecay) =
      -(o.learningRate / correction * m.mean /
        (√(m.divisorSquare o.keepsPeak) / (o.schedule count).spread + o.margin)) := by
    rw [← hfactor]
    unfold descend Moment.divisorSquare
    change x * (1 - o.learningRate * o.weightDecay) - _ - _ = _
    rw [sub_sub_cancel_left]
    rfl
  rw [hmove, abs_neg]
  exact abs_move_le hrate hspread hle hmargin (Real.sqrt_nonneg _) h.abs_mean_le

/-- The optimizer has the usual settings and all its moments are balanced. -/
structure Steady (o : Optimizer ℝ) : Prop where
  usual : o.Usual
  balanced : ∀ name row col, (Parameters.element o.moments name row col).Balanced o.keepsPeak

theorem steady_of_empty (ho : o.Usual) (h : o.moments = .empty) : o.Steady where
  usual := ho
  balanced name row col := by
    rw [h]
    exact Moment.balanced_zero _

/-- An accepted step leaves a steady optimizer steady, whatever the gradients are. -/
theorem steady_after (h : o.Steady) {parameters gradients : Parameters ℝ}
    (hsuited : parameters.mismatch? gradients = none)
    (hshapes : o.reshaped? parameters = none) : (o.after parameters gradients).Steady where
  usual := h.usual.after parameters gradients
  balanced name row col := by
    change Moment.Balanced o.keepsPeak _
    have hbalanced := h.balanced name row col
    by_cases hhas : parameters.Has name row col
    · rw [element_moments_after hsuited hshapes hhas]
      exact balanced_accumulate h.usual hbalanced _
    · rw [element_moments_after_of_not_has hshapes hhas]
      exact hbalanced

/-- A step of a positive number moves every element of the parameters by at most
eight learning rates, decay apart. -/
theorem abs_element_moved_sub_le (h : o.Steady) (hrate : 0 ≤ o.learningRate)
    {parameters gradients : Parameters ℝ} (hsuited : parameters.mismatch? gradients = none)
    (hshapes : o.reshaped? parameters = none) (hcount : 0 < (o.steps + 1).toInt)
    (name : String) (row col : ℕ) :
    |(o.moved parameters gradients).element name row col -
        parameters.element name row col * (1 - o.learningRate * o.weightDecay)| ≤
      8 * o.learningRate := by
  by_cases hhas : parameters.Has name row col
  · have hafter := (steady_after h hsuited hshapes).balanced name row col
    rw [element_moved o gradients hhas]
    exact abs_descend_sub_le h.usual hafter hrate hcount _
  · have hmoved : ¬(o.moved parameters gradients).Has name row col :=
      mt (Parameters.has_of_layout (layout_moved o parameters gradients)) hhas
    rw [Parameters.element_of_not_has hhas, Parameters.element_of_not_has hmoved, zero_mul,
      sub_zero, abs_zero]
    linarith

end Optimizer

end DeferredReward
