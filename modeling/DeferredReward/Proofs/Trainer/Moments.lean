import DeferredReward.Proofs.Trainer.Agreement
import DeferredReward.Proofs.Trainer.Following
import Mathlib.Order.Bounds.Basic

/-!
# The moments of a trainer

In exact arithmetic, whatever features and rewards a trainer has been given, the
gradients that its optimizer sees are within the bound that they are clamped to.
After `n` executed steps their decaying mean has collected no more than the part
`1 - 0.9 ^ n` of that bound, and their decaying mean square no more than the part
`1 - 0.999 ^ n` of its square. The peak is the largest of the mean squares that
there were right after the executed steps.

Main statements: `within_accumulate`, `peaked_of_advances`, `moments_of_run`.
-/

namespace DeferredReward

/-- A number that has collected a part of a limit collects the next part of it from
a number that is not beyond the limit. -/
theorem collected_le {kept limit x y : ℝ} {n : ℕ} (hpos : 0 ≤ kept) (hlt : kept ≤ 1)
    (hx : x ≤ limit * (1 - kept ^ n)) (hy : y ≤ limit) :
    kept * x + (1 - kept) * y ≤ limit * (1 - kept ^ (n + 1)) := by
  have hold : kept * x ≤ kept * (limit * (1 - kept ^ n)) := mul_le_mul_of_nonneg_left hx hpos
  have hnew : (1 - kept) * y ≤ (1 - kept) * limit :=
    mul_le_mul_of_nonneg_left hy (sub_nonneg.2 hlt)
  calc kept * x + (1 - kept) * y ≤ kept * (limit * (1 - kept ^ n)) + (1 - kept) * limit :=
        add_le_add hold hnew
    _ = limit * (1 - kept ^ (n + 1)) := by ring

/-- The moment is one of at most `n` gradients within the bound. -/
structure Moment.Within (n : ℕ) (m : Moment ℝ) : Prop where
  abs_mean_le : |m.mean| ≤ 100 * (1 - (9 / 10) ^ n)
  square_nonneg : 0 ≤ m.square
  square_le : m.square ≤ 10000 * (1 - (999 / 1000) ^ n)

theorem Moment.within_zero : (0 : Moment ℝ).Within 0 := by
  have hmean : (0 : Moment ℝ).mean = 0 := rfl
  have hsquare : (0 : Moment ℝ).square = 0 := rfl
  constructor
  · rw [hmean]
    norm_num
  · rw [hsquare]
  · rw [hsquare]
    norm_num

namespace Optimizer

variable {o : Optimizer ℝ} {m : Moment ℝ} {g : ℝ}

/-- One more gradient within the bound. -/
theorem within_accumulate (ho : o.Usual) {n : ℕ} (hm : m.Within n) (hg : |g| ≤ 100) :
    (o.accumulate m g).Within (n + 1) := by
  obtain ⟨hlow, hhigh⟩ := abs_le.1 hm.abs_mean_le
  obtain ⟨hglow, hghigh⟩ := abs_le.1 hg
  have hsquareNonneg : 0 ≤ g * g := mul_self_nonneg g
  have hsquareLe : g * g ≤ 10000 := by nlinarith
  have hmean : (o.accumulate m g).mean = 9 / 10 * m.mean + (1 - 9 / 10) * g := by
    rw [← ho.keepMean]
    rfl
  have hsquare : (o.accumulate m g).square =
      999 / 1000 * m.square + (1 - 999 / 1000) * (g * g) := by
    rw [← mul_assoc, ← ho.keepSquare]
    rfl
  constructor
  · rw [hmean, abs_le]
    constructor
    · -- The lower bound is the upper bound of the negatives.
      have hnegative := collected_le (by norm_num) (by norm_num) (neg_le.1 hlow) (neg_le.1 hglow)
      linarith
    · exact collected_le (by norm_num) (by norm_num) hhigh hghigh
  · rw [hsquare]
    have hold := hm.square_nonneg
    positivity
  · rw [hsquare]
    exact collected_le (by norm_num) (by norm_num) hm.square_le hsquareLe

/-- Where it is kept, the peak is the larger of the last one and the mean square. -/
theorem peak_accumulate (hpeak : o.keepsPeak = true) (m : Moment ℝ) (g : ℝ) :
    (o.accumulate m g).peak = max (o.accumulate m g).square m.peak := by
  have hchoice : (o.accumulate m g).peak = Arithmetic.larger m.peak (o.accumulate m g).square := by
    unfold accumulate
    dsimp only
    rw [hpeak, if_pos rfl]
  rw [hchoice, Arithmetic.larger_eq_max, max_comm]

end Optimizer

namespace Trainer

variable {σ : Type} [SnapshotStore (StateM σ) ℝ] {config : Config ℝ}
  {first t t' : Trainer (Network ℝ) ℝ} {history : History ℝ}
  {passed : List (Trainer (Network ℝ) ℝ)} {name : String} {row col : ℕ}

/-- The moment of an element of a trainer's policy. -/
noncomputable def momentAt (name : String) (row col : ℕ) (t : Trainer (Network ℝ) ℝ) :
    DeferredReward.Moment ℝ :=
  Parameters.element t.optimizer.moments name row col

/-- The mean squares of an element right after the executed steps. -/
def squaresAt (name : String) (row col : ℕ) (passed : List (Trainer (Network ℝ) ℝ)) : Set ℝ :=
  {square | ∃ s ∈ passed, (momentAt name row col s).square = square}

/-- The moment of an element is one of clamped gradients, and its peak is the largest of
the mean squares at the milestones, none of which had a higher one. -/
structure Peaked (name : String) (row col : ℕ) (passed : List (Trainer (Network ℝ) ℝ))
    (t : Trainer (Network ℝ) ℝ) : Prop where
  usual : t.optimizer.Usual
  keepsPeak : t.optimizer.keepsPeak = true
  within : (momentAt name row col t).Within passed.length
  square_le_peak : (momentAt name row col t).square ≤ (momentAt name row col t).peak
  peak : (passed = [] ∧ momentAt name row col t = 0) ∨
    IsGreatest (squaresAt name row col passed) (momentAt name row col t).peak
  rises : ∀ s ∈ passed, (momentAt name row col s).peak ≤ (momentAt name row col t).peak

theorem peaked_of_started (h : Started config first) : Peaked name row col [] first := by
  have hmoment : momentAt name row col first = 0 := by
    unfold momentAt
    rw [h.eq]
    rfl
  refine ⟨h.usual, ?_, ?_, ?_, .inl ⟨rfl, hmoment⟩, fun _ hs => nomatch hs⟩
  · rw [h.eq]
    rfl
  · rw [hmoment]
    exact DeferredReward.Moment.within_zero
  · rw [hmoment]
    exact le_rfl

/-- The moments belong to the optimizer, which only executed steps change. -/
theorem Peaked.of_unmoved (h : Peaked name row col passed t) (hsame : Unmoved t t') :
    Peaked name row col passed t' := by
  have hmoment : momentAt name row col t' = momentAt name row col t := by
    unfold momentAt
    rw [hsame.optimizer]
  constructor
  · rw [hsame.optimizer]
    exact h.usual
  · rw [hsame.optimizer]
    exact h.keepsPeak
  · rw [hmoment]
    exact h.within
  · rw [hmoment]
    exact h.square_le_peak
  · rw [hmoment]
    exact h.peak
  · rw [hmoment]
    exact h.rises

theorem squaresAt_append (passed : List (Trainer (Network ℝ) ℝ)) (t : Trainer (Network ℝ) ℝ) :
    squaresAt name row col (passed ++ [t]) =
      insert (momentAt name row col t).square (squaresAt name row col passed) := by
  ext square
  simp only [squaresAt, List.mem_append, List.mem_singleton, Set.mem_ofPred_eq, Set.mem_insert_iff,
    or_and_right, exists_or, exists_eq_left]
  rw [or_comm, eq_comm]

/-- An executed step adds its mean square, and a peak that is not below the last one. -/
theorem peaked_of_advances {gradients : Parameters ℝ} (hhas : t.policy.parameters.Has name row col)
    (h : Peaked name row col passed t) (hadvances : Advances t gradients t') :
    Peaked name row col (passed ++ [t']) t' := by
  obtain ⟨raw, hraw⟩ := hadvances.clamped
  rw [gradientBound_eq] at hraw
  have hgradient : |gradients.element name row col| ≤ 100 :=
    Parameters.abs_element_of_clampWithin (by norm_num) hraw name row col
  have hmoment : momentAt name row col t' =
      t.optimizer.accumulate (momentAt name row col t) (gradients.element name row col) := by
    unfold momentAt
    rw [hadvances.optimizer]
    exact Optimizer.element_moments_after hadvances.suited hadvances.unreshaped hhas
  have hpeak : (momentAt name row col t').peak =
      max (momentAt name row col t').square (momentAt name row col t).peak := by
    rw [hmoment]
    exact Optimizer.peak_accumulate h.keepsPeak _ _
  have hwithin : (momentAt name row col t').Within (passed.length + 1) := by
    rw [hmoment]
    exact Optimizer.within_accumulate h.usual h.within hgradient
  refine ⟨?_, ?_, ?_, ?_, .inr ?_, ?_⟩
  · rw [hadvances.optimizer]
    exact h.usual.after _ _
  · rw [hadvances.optimizer]
    exact h.keepsPeak
  · rw [List.length_append, List.length_singleton]
    exact hwithin
  · rw [hpeak]
    exact le_max_left _ _
  · rw [squaresAt_append]
    rcases h.peak with ⟨rfl, hzero⟩ | hgreatest
    · -- The first mean square is not below the peak of zero that there was before.
      have hfirst : (momentAt name row col t').peak = (momentAt name row col t').square := by
        rw [hpeak, hzero]
        exact max_eq_left hwithin.square_nonneg
      have hnone : squaresAt name row col [] = ∅ := by simp [squaresAt]
      rw [hfirst, hnone, insert_empty_eq]
      exact isGreatest_singleton
    · rw [hpeak]
      exact hgreatest.insert _
  · intro s hs
    rcases List.mem_append.1 hs with hearlier | hlast
    · rw [hpeak]
      exact (h.rises s hearlier).trans (le_max_right _ _)
    · rw [List.mem_singleton.1 hlast]

/-- The moments of an element of the policy, at any point of a run. -/
theorem Milestones.peaked (hstarted : Started config first)
    (h : Milestones σ first history passed t)
    (hhas : first.policy.parameters.Has name row col) : Peaked name row col passed t := by
  refine h.invariant hstarted.form (fun passed t => Peaked name row col passed t)
    (peaked_of_started hstarted) Peaked.of_unmoved ?_
  intro passed t gradients t' hkin _ hpeaked hadvances
  have hlayout := Network.layout_of_form hkin.policy
  exact peaked_of_advances (Parameters.has_of_layout hlayout.symm hhas) hpeaked hadvances

/-- In exact arithmetic and after any run of a trainer, whatever was sampled, the
optimizer has moments for the elements of the policy once a step has been executed.
The mean of an element is at most `100 * (1 - 0.9 ^ n)` in magnitude and its mean
square lies between zero and `10000 * (1 - 0.999 ^ n)`, where `n` is the number of
executed steps, which always can be counted. The peak is the largest of the mean
squares right after the executed steps. So it is not below that of the last step,
and no executed step had a higher one. -/
theorem moments_of_run (hbuilt : Built σ config first) (hrun : Run σ first history t) :
    history.executed < 2 ^ 31 ∧
    (history.executed = 0 → t.optimizer.moments = .empty) ∧
    (0 < history.executed →
      Parameters.layout t.optimizer.moments = t.policy.parameters.layout) ∧
    (∃ passed, Milestones σ first history passed t) ∧
    ∀ passed, Milestones σ first history passed t → passed.length = history.executed ∧
      ∀ name row col, t.policy.parameters.Has name row col →
        |(momentAt name row col t).mean| ≤ 100 * (1 - (9 / 10) ^ history.executed) ∧
        0 ≤ (momentAt name row col t).square ∧
        (momentAt name row col t).square ≤ 10000 * (1 - (999 / 1000) ^ history.executed) ∧
        (0 < history.executed →
          IsGreatest (squaresAt name row col passed) (momentAt name row col t).peak) ∧
        (momentAt name row col t).square ≤ (momentAt name row col t).peak ∧
        ∀ s ∈ passed, (momentAt name row col s).peak ≤ (momentAt name row col t).peak := by
  have hstarted := started_of_built hbuilt
  have hlayout := Network.layout_of_form (kindred_of_run hstarted.form hrun).policy
  have hsteps := steps_of_run hstarted hrun
  have hlimit := t.optimizer.steps.toInt_lt
  obtain ⟨passed, hpassed⟩ := exists_milestones hrun
  refine ⟨by omega, ?_, ?_, ⟨passed, hpassed⟩, ?_⟩
  · intro hnone
    obtain ⟨_, hempty⟩ | ⟨hne, _⟩ := hpassed.layout_moments hstarted
    · exact hempty
    · exact absurd (List.length_eq_zero_iff.1 (hpassed.length_eq.trans hnone)) hne
  · intro hsome
    obtain ⟨rfl, _⟩ | ⟨_, hmoments⟩ := hpassed.layout_moments hstarted
    · exact absurd hpassed.length_eq hsome.ne
    · exact hmoments.trans hlayout.symm
  · intro passed hpassed
    have hlength := hpassed.length_eq
    refine ⟨hlength, fun name row col hhas => ?_⟩
    have hpeaked := hpassed.peaked hstarted (Parameters.has_of_layout hlayout hhas)
    have hwithin := hpeaked.within
    rw [hlength] at hwithin
    refine ⟨hwithin.abs_mean_le, hwithin.square_nonneg, hwithin.square_le, ?_,
      hpeaked.square_le_peak, hpeaked.rises⟩
    intro hsome
    rcases hpeaked.peak with ⟨rfl, _⟩ | hgreatest
    · exact absurd hlength hsome.ne
    · exact hgreatest

/-- After one executed step the second weight of the exact trainer has a mean of at
most ten in magnitude and a mean square of at most ten. -/
theorem moments_of_run_exactTrainer :
    ∃ history t, Run (Shelf ℝ) exactTrainer history t ∧ history.executed = 1 ∧
      t.policy.parameters.Has "layers.0.weight" 1 0 ∧
      |(momentAt "layers.0.weight" 1 0 t).mean| ≤ 10 ∧
      (momentAt "layers.0.weight" 1 0 t).square ≤ 10 := by
  obtain ⟨history, t, hrun, hone⟩ := exists_exact_run
  have hbuilt : Built (Shelf ℝ) exactConfig exactTrainer := .inl fromConfig_exactTrainer
  obtain ⟨_, _, _, ⟨passed, hpassed⟩, hmoments⟩ := moments_of_run hbuilt hrun
  have hform := (kindred_of_run (started_of_built hbuilt).form hrun).policy
  have hhas : exactTrainer.policy.parameters.Has "layers.0.weight" 1 0 :=
    ⟨_, rfl, by decide, by decide⟩
  have hhas' := Parameters.has_of_layout (Network.layout_of_form hform).symm hhas
  obtain ⟨hmean, _, hsquare, _⟩ := (hmoments passed hpassed).2 "layers.0.weight" 1 0 hhas'
  rw [hone] at hmean hsquare
  refine ⟨history, t, hrun, hone, hhas', ?_, ?_⟩
  · norm_num at hmean
    exact hmean
  · norm_num at hsquare
    exact hsquare

end Trainer

end DeferredReward
