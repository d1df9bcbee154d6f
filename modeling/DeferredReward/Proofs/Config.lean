import DeferredReward.Config.Validation

/-!
# What an accepted configuration promises

A configuration is accepted when none of the possible faults is present, so that
each of them, denied, is a promise.
-/

namespace DeferredReward.Config

variable {α : Type} [Arithmetic α] {config : Config α}

/-- A batch is not empty. -/
theorem batchSize_ne_zero (h : config.validate = .ok ()) : config.batchSize ≠ 0 := by
  have hbatch : (config.batchSize == 0) = false :=
    (validate_eq_ok_iff config).1 h (config.batchSize == 0, ⟨.batchSize, .notPositive⟩)
      (by simp [faults])
  exact beq_eq_false_iff_ne.1 hbatch

/-- Checkpoints are some epochs apart. -/
theorem saveInterval_ne_zero (h : config.validate = .ok ()) : config.saveInterval ≠ 0 := by
  have hinterval : (config.saveInterval == 0) = false :=
    (validate_eq_ok_iff config).1 h (config.saveInterval == 0, ⟨.saveInterval, .notPositive⟩)
      (by simp [faults])
  exact beq_eq_false_iff_ne.1 hinterval

/-- The memory has room for a batch. -/
theorem batchSize_le_memorySize (h : config.validate = .ok ()) :
    config.batchSize.toNat ≤ config.memorySize.toNat := by
  have hroom : decide (config.memorySize < config.batchSize) = false :=
    (validate_eq_ok_iff config).1 h (decide (config.memorySize < config.batchSize),
      ⟨.memorySize, .smallerThanBatch config.memorySize config.batchSize⟩) (by simp [faults])
  exact Nat.not_lt.1 fun hlt => of_decide_eq_false hroom (UInt64.lt_iff_toNat_lt.2 hlt)

/-- A setting that is confined to an interval lies in it. -/
theorem holds_of_mem_faults (h : config.validate = .ok ()) (setting : Setting) {x : α}
    {interval : UnitInterval}
    (hmem : (!interval.holds x, ⟨setting, .outside x interval⟩) ∈ config.faults) :
    interval.holds x = true := by
  have habsent : (!interval.holds x) = false := (validate_eq_ok_iff config).1 h _ hmem
  rwa [Bool.not_eq_false'] at habsent

/-- Every setting that is confined to an interval lies in it. -/
theorem holds_of_validate (h : config.validate = .ok ()) :
    UnitInterval.openBoth.holds config.discount = true ∧
      UnitInterval.openLow.holds config.blendWeight = true ∧
      UnitInterval.closed.holds config.rewardWeight = true ∧
      UnitInterval.closed.holds config.exploreStart = true ∧
      UnitInterval.closed.holds config.exploreStop = true :=
  ⟨holds_of_mem_faults h .discount (by simp [faults]),
    holds_of_mem_faults h .blendWeight (by simp [faults]),
    holds_of_mem_faults h .rewardWeight (by simp [faults]),
    holds_of_mem_faults h .exploreStart (by simp [faults]),
    holds_of_mem_faults h .exploreStop (by simp [faults])⟩

/-- The learning rate is above zero and finite. -/
theorem learningRate_of_validate (h : config.validate = .ok ()) :
    Arithmetic.less 0 config.learningRate = true ∧
      Arithmetic.isFinite config.learningRate = true := by
  have hrate : (!(Arithmetic.less 0 config.learningRate &&
      Arithmetic.isFinite config.learningRate)) = false :=
    (validate_eq_ok_iff config).1 h
      (!(Arithmetic.less 0 config.learningRate && Arithmetic.isFinite config.learningRate),
        ⟨.learningRate, .notPositiveNumber⟩) (by simp [faults])
  rwa [Bool.not_eq_false', Bool.and_eq_true_iff] at hrate

/-- The decay of exploration is above zero. -/
theorem less_exploreDecay (h : config.validate = .ok ()) :
    Arithmetic.less 0 config.exploreDecay = true := by
  have hdecay : (!Arithmetic.less 0 config.exploreDecay) = false :=
    (validate_eq_ok_iff config).1 h
      (!Arithmetic.less 0 config.exploreDecay, ⟨.exploreDecay, .notPositive⟩) (by simp [faults])
  rwa [Bool.not_eq_false'] at hdecay

end DeferredReward.Config
