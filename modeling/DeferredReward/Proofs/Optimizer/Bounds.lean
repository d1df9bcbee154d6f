import DeferredReward.Proofs.Optimizer.Scalar
import DeferredReward.Proofs.Optimizer.StepSize

/-!
# No step is long

In exact arithmetic and with the usual settings, each step of a course moves each
element, decay apart, by at most eight learning rates. The gradients are
arbitrary, and so are the values that the caller puts in between two steps: the
moments alone carry the bound, and they are balanced from the first step on. At
the same time no step divides by zero. Courses cannot be longer than the count of
the steps, so nothing has to be said about their length.

Main statement: `course_moves_little`.
-/

namespace DeferredReward

/-- The correction for the bias of a decaying mean is above zero and at most one. -/
theorem correction_mem {kept : ℝ} (hpos : 0 < kept) (hlt : kept < 1) {number : ℕ}
    (hnumber : 0 < number) :
    0 < 1 - Arithmetic.power kept number ∧ 1 - Arithmetic.power kept number ≤ 1 := by
  have hbelow : kept ^ number < 1 := pow_lt_one₀ hpos.le hlt hnumber.ne'
  have habove : 0 < kept ^ number := pow_pos hpos number
  rw [Arithmetic.power_natCast]
  constructor <;> linarith

/-- The numbers that a rule divides by in the step of that number: the two
corrections and what the mean is divided by. -/
structure Rule.Divides (r : Rule ℝ) (number : ℕ) (m : Moment ℝ) : Prop where
  meanCorrection_pos : 0 < r.meanCorrection number
  meanCorrection_le : r.meanCorrection number ≤ 1
  squareCorrection_pos : 0 < r.squareCorrection number
  squareCorrection_le : r.squareCorrection number ≤ 1
  margin_le : 1e-8 ≤ r.divisor number m

namespace Optimizer

variable {first last : Optimizer ℝ} {moves : List (Move ℝ)}

/-- No step of the usual settings divides by zero. -/
theorem divides_of_usual (husual : first.Usual) {number : ℕ} (hnumber : 0 < number)
    (m : Moment ℝ) : first.rule.Divides number m := by
  have hmean : 0 < first.keepMean ∧ first.keepMean < 1 := by
    rw [husual.keepMean]
    norm_num
  have hsquare : 0 < first.keepSquare ∧ first.keepSquare < 1 := by
    rw [husual.keepSquare]
    norm_num
  obtain ⟨hmeanPos, hmeanLe⟩ := correction_mem hmean.1 hmean.2 hnumber
  obtain ⟨hsquarePos, hsquareLe⟩ := correction_mem hsquare.1 hsquare.2 hnumber
  refine ⟨hmeanPos, hmeanLe, hsquarePos, hsquareLe, ?_⟩
  have hscaled : 0 ≤ √(if first.keepsPeak then m.peak else m.square) /
      √(first.rule.squareCorrection number) := by
    positivity
  rw [← husual.margin]
  exact le_add_of_nonneg_left hscaled

/-- A steady optimizer stays steady. -/
theorem steady_of_course (course : Course first moves last) (h : first.Steady) : last.Steady := by
  induction course with
  | done o => exact h
  | step hstep _ ih =>
    have haccepts := accepts_of_step hstep
    rw [haccepts.next] at ih
    exact ih (steady_after h haccepts.suited haccepts.unreshaped)

/-- The steps of a course from a fresh optimizer are fewer than can be counted. -/
theorem length_lt_of_course (hfresh : first.Fresh) (course : Course first moves last) :
    moves.length < 2 ^ 31 := by
  have hcount := course.toInt_steps
  have hlimit := last.steps.toInt_lt
  rw [hfresh.toInt_steps] at hcount
  omega

/-- In every course from a fresh optimizer of the usual settings, with any
positive learning rate, any decay and either divisor, each step moves each
element of its parameters, decay apart, by at most eight learning rates. The
numbers that it divides by are the two corrections, which are above zero and at
most one, and a divisor that is not below the margin. -/
theorem course_moves_little (hfresh : first.Fresh) (husual : first.Usual)
    (hrate : 0 < first.learningRate) (course : Course first moves last) :
    moves.length < 2 ^ 31 ∧
    ∀ before move later, moves = before ++ move :: later →
      ∀ name row col, move.parameters.Has name row col →
        move.moved.element name row col =
            first.rule.value (before.length + 1) (move.parameters.element name row col)
              (gradientsOf (before ++ [move]) name row col) ∧
          |move.moved.element name row col -
              move.parameters.element name row col *
                (1 - first.learningRate * first.weightDecay)| ≤ 8 * first.learningRate ∧
          first.rule.Divides (before.length + 1)
            (first.rule.track (gradientsOf (before ++ [move]) name row col)) := by
  refine ⟨length_lt_of_course hfresh course, ?_⟩
  rintro before move later rfl name row col hhas
  obtain ⟨o, next, hbefore, hstep, _⟩ := course.split
  have haccepts := accepts_of_step hstep
  have hsteady : o.Steady := steady_of_course hbefore (steady_of_empty husual hfresh.moments)
  obtain ⟨hsame, -, -, -, hdecay, -⟩ := Rule.mk.inj (rule_of_course hbefore)
  have hcount : 0 < (o.steps + 1).toInt := by
    rw [number_of_course hfresh hbefore hstep]
    exact Int.natCast_pos.2 (Nat.succ_pos _)
  have hmoves := abs_element_moved_sub_le hsteady (hsame ▸ hrate.le) haccepts.suited
    haccepts.unreshaped hcount name row col
  rw [← haccepts.moved, hsame, hdecay] at hmoves
  obtain ⟨_, hvalue⟩ := element_of_course hfresh hbefore hstep hhas
  exact ⟨hvalue, hmoves, divides_of_usual husual (Nat.succ_pos _) _⟩

/-- A single weight. -/
def singleWeight (x : ℝ) : Parameters ℝ := .ofList [("w", .row #[x])]

/-- A rate of one, no decay, and the divisor of the largest mean square. -/
noncomputable def eager : Optimizer ℝ := { ofRate 1 with weightDecay := 0, keepsPeak := true }

/-- A huge gradient after a small one moves a weight by no more than eight. -/
theorem course_moves_little_singleWeight :
    ∃ moved moved' last,
      Course eager
        [⟨singleWeight 0, singleWeight 1, moved⟩,
          ⟨singleWeight 5, singleWeight (-1000), moved'⟩] last ∧
      |moved'.element "w" 0 0 - 5 * (1 - 1 * 0)| ≤ 8 * 1 := by
  have hfresh : eager.Fresh := ⟨rfl, rfl⟩
  have husual : eager.Usual :=
    ⟨(usual_ofRate 1).keepMean, (usual_ofRate 1).keepSquare, (usual_ofRate 1).margin⟩
  have hrate : 0 < eager.learningRate := one_pos
  have hcount : eager.steps ≠ Int32.maxValue := by decide
  have hcount' : (eager.after (singleWeight 0) (singleWeight 1)).steps ≠ Int32.maxValue := by
    decide
  have hlayout : ∀ x y, (singleWeight x).layout = (singleWeight y).layout := fun _ _ => rfl
  have hfirst := step_of_layout (hlayout 1 0) hcount (reshaped?_of_empty hfresh.moments _)
  have hshapes : (eager.after (singleWeight 0) (singleWeight 1)).reshaped? (singleWeight 5) =
      none := rfl
  have hsecond := step_of_layout (hlayout (-1000) 5) hcount' hshapes
  have course : Course eager [⟨singleWeight 0, singleWeight 1, _⟩,
      ⟨singleWeight 5, singleWeight (-1000), _⟩] _ :=
    .step hfirst (.step hsecond (.done _))
  have hhas : (singleWeight 5).Has "w" 0 0 := ⟨.row #[5], rfl, by decide, by decide⟩
  refine ⟨_, _, _, course, ?_⟩
  obtain ⟨_, hmoves⟩ := course_moves_little hfresh husual hrate course
  obtain ⟨_, hlittle, _⟩ := hmoves [_] _ [] rfl "w" 0 0 hhas
  exact hlittle

end Optimizer

end DeferredReward
