import DeferredReward.Proofs.Optimizer.StepSize
import DeferredReward.Proofs.Trainer.Following

/-!
# Parameters do not diverge

In exact arithmetic a step takes a hundredth of a learning rate off an element
and then moves it by at most eight learning rates. An element beyond 800 is
drawn back, therefore, and one below stays below, as long as the learning rate
is at most one hundred. The target, a mean of policies, stays within the bounds
of the policy. No other operation moves an element at all.

Main statements: `Optimizer.abs_element_moved_le`, `bounded_of_advances`,
`abs_element_le`.
-/

namespace DeferredReward

/-- What decays towards zero and is moved by no more than decay takes off the
bound stays within the bound. -/
theorem Optimizer.abs_le_of_decay {x y rate bound : ℝ} (hpos : 0 ≤ rate) (hrate : rate ≤ 100)
    (hbound : 800 ≤ bound) (hx : |x| ≤ bound)
    (hmove : |y - x * (1 - rate * (1 / 100))| ≤ 8 * rate) : |y| ≤ bound := by
  have hkept : 0 ≤ 1 - rate * (1 / 100) := by linarith
  have hdecayed : |x * (1 - rate * (1 / 100))| ≤ bound * (1 - rate * (1 / 100)) := by
    rw [abs_mul, abs_of_nonneg hkept]
    exact mul_le_mul_of_nonneg_right hx hkept
  have hlost : 8 * rate ≤ bound * (rate * (1 / 100)) := by
    have hscaled := mul_le_mul_of_nonneg_right hbound hpos
    linarith
  calc |y| = |(y - x * (1 - rate * (1 / 100))) + x * (1 - rate * (1 / 100))| := by
        rw [sub_add_cancel]
    _ ≤ |y - x * (1 - rate * (1 / 100))| + |x * (1 - rate * (1 / 100))| := abs_add_le _ _
    _ ≤ 8 * rate + bound * (1 - rate * (1 / 100)) := add_le_add hmove hdecayed
    _ ≤ bound := by linarith

/-- A step of a positive number keeps an element within every bound from 800 on. -/
theorem Optimizer.abs_element_moved_le {o : Optimizer ℝ} (h : o.Steady)
    (hpos : 0 ≤ o.learningRate) (hrate : o.learningRate ≤ 100) (hdecay : o.weightDecay = 1 / 100)
    {parameters gradients : Parameters ℝ} (hsuited : parameters.mismatch? gradients = none)
    (hshapes : o.reshaped? parameters = none) (hcount : 0 < (o.steps + 1).toInt)
    {name : String} {row col : ℕ} {bound : ℝ} (hbound : 800 ≤ bound)
    (hx : |parameters.element name row col| ≤ bound) :
    |(o.moved parameters gradients).element name row col| ≤ bound := by
  have hmove := abs_element_moved_sub_le h hpos hsuited hshapes hcount name row col
  rw [hdecay] at hmove
  exact abs_le_of_decay hpos hrate hbound hx hmove

namespace Trainer

/-- The optimizer is steady with the settings of the configuration, and both
networks are within the bounds that the first policy gives. -/
structure Bounded (config : Config ℝ) (first t : Trainer (Network ℝ) ℝ) : Prop where
  steady : t.optimizer.Steady
  rate : t.optimizer.learningRate = config.learningRate
  decay : t.optimizer.weightDecay = 1 / 100
  counted : 0 ≤ t.optimizer.steps.toInt
  policy : ∀ name row col, |t.policy.parameters.element name row col| ≤
    max |first.policy.parameters.element name row col| 800
  target : ∀ name row col, |t.target.parameters.element name row col| ≤
    max |first.policy.parameters.element name row col| 800

variable {config : Config ℝ} {first t t' : Trainer (Network ℝ) ℝ}

theorem bounded_of_started (h : Started config first) : Bounded config first first where
  steady := by
    have hmoments : first.optimizer.moments = .empty := by
      rw [h.eq]
      rfl
    exact Optimizer.steady_of_empty h.usual hmoments
  rate := by
    rw [h.eq]
    rfl
  decay := by
    rw [h.eq]
    change (0.01 : ℝ) = 1 / 100
    norm_num
  counted := by
    rw [h.eq]
    exact le_rfl
  policy _ _ _ := le_max_left _ _
  target _ _ _ := by
    rw [h.parameters]
    exact le_max_left _ _

/-- An executed step keeps the bounds, whatever the gradients are. -/
theorem bounded_of_advances {gradients : Parameters ℝ} (hstarted : Started config first)
    (hrate : config.learningRate ≤ 100) (hkin : Kindred first t) (hkin' : Kindred first t')
    (h : Bounded config first t) (hadvances : Advances t gradients t') :
    Bounded config first t' := by
  have hpos := Config.learningRate_pos hstarted.valid
  obtain ⟨hweight, hweightle⟩ := Config.blendWeight_mem hstarted.valid
  have hsteps := Optimizer.toInt_steps_after hadvances.countable t.policy.parameters gradients
  have hcounted := h.counted
  have hpolicy : ∀ name row col, |t'.policy.parameters.element name row col| ≤
      max |first.policy.parameters.element name row col| 800 := by
    intro name row col
    have hcount : 0 < (t.optimizer.steps + 1).toInt := by
      change 0 < (t.optimizer.after t.policy.parameters gradients).steps.toInt
      omega
    rw [hadvances.policy]
    exact Optimizer.abs_element_moved_le h.steady (h.rate ▸ hpos.le) (h.rate ▸ hrate) h.decay
      hadvances.suited hadvances.unreshaped hcount (le_max_right _ _) (h.policy name row col)
  refine ⟨?_, ?_, ?_, ?_, hpolicy, ?_⟩
  · rw [hadvances.optimizer]
    exact Optimizer.steady_after h.steady hadvances.suited hadvances.unreshaped
  · rw [hadvances.optimizer]
    exact h.rate
  · rw [hadvances.optimizer]
    exact h.decay
  · rw [hadvances.optimizer]
    omega
  · intro name row col
    have hlayout : t'.policy.parameters.layout = t.target.parameters.layout :=
      Network.layout_of_form (hkin'.policy.trans hkin.target.symm)
    have hconfig : t.config = config := hkin.config.trans hstarted.config_eq
    rw [Parameters.element_of_blend_real hlayout hadvances.target, hconfig]
    exact abs_le.2 (mean_mem_between hweight.le hweightle (abs_le.1 (hpolicy name row col))
      (abs_le.1 (h.target name row col)))

variable {σ : Type} [SnapshotStore (StateM σ) ℝ] {history : History ℝ}

/-- In exact arithmetic, with a learning rate of at most one hundred and whatever is
staged, pushed and learned, no element of either network is ever further from
zero than 800 or than the element of the first policy. -/
theorem abs_element_le (hbuilt : Built σ config first) (hrate : config.learningRate ≤ 100)
    (hrun : Run σ first history t) :
    t.policy.parameters.layout = first.policy.parameters.layout ∧
    t.target.parameters.layout = first.policy.parameters.layout ∧
    ∀ name row col,
      |t.policy.parameters.element name row col| ≤
        max |first.policy.parameters.element name row col| 800 ∧
      |t.target.parameters.element name row col| ≤
        max |first.policy.parameters.element name row col| 800 := by
  have hstarted := started_of_built hbuilt
  have hkin := kindred_of_run hstarted.form hrun
  obtain ⟨passed, hpassed⟩ := exists_milestones hrun
  have hbounded : Bounded config first t := by
    refine hpassed.invariant hstarted.form (fun _ t => Bounded config first t)
      (bounded_of_started hstarted) ?_ ?_
    · intro _ t t' h hsame
      constructor
      · rw [hsame.optimizer]
        exact h.steady
      · rw [hsame.optimizer]
        exact h.rate
      · rw [hsame.optimizer]
        exact h.decay
      · rw [hsame.optimizer]
        exact h.counted
      · rw [hsame.policy]
        exact h.policy
      · rw [hsame.target]
        exact h.target
    · intro _ t gradients t' hkin hkin' h hadvances
      exact bounded_of_advances hstarted hrate hkin hkin' h hadvances
  exact ⟨Network.layout_of_form hkin.policy, Network.layout_of_form hkin.target,
    fun name row col => ⟨hbounded.policy name row col, hbounded.target name row col⟩⟩

/-- The exact trainer stays within the bounds in a run with an executed step. -/
theorem abs_element_le_exactTrainer :
    exactConfig.learningRate ≤ 100 ∧
    ∃ history t, Run (Shelf ℝ) exactTrainer history t ∧ history.executed = 1 ∧
      ∀ name row col, |t.policy.parameters.element name row col| ≤
        max |exactTrainer.policy.parameters.element name row col| 800 := by
  have hrate : exactConfig.learningRate ≤ 100 := by
    change (0.01 : ℝ) ≤ 100
    norm_num
  obtain ⟨history, t, hrun, hone⟩ := exists_exact_run
  obtain ⟨_, _, hbounds⟩ := abs_element_le (.inl fromConfig_exactTrainer) hrate hrun
  exact ⟨hrate, history, t, hrun, hone, fun name row col => (hbounds name row col).1⟩

end Trainer

end DeferredReward
