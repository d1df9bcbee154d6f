import DeferredReward.Proofs.Arithmetic.Exact
import DeferredReward.Proofs.Optimizer.StepSize
import DeferredReward.Proofs.Trainer.Readiness
import Mathlib.Tactic.NormNum

/-!
# Trainers in exact arithmetic

What an accepted configuration over the real numbers promises about its weights,
and its trainer about its optimizer; and a trainer over the real numbers, with a
shelf of snapshots that keeps them as they are, for want of a text.
-/

namespace DeferredReward

namespace Config

variable {config : Config ℝ}

/-- An accepted learning rate is above zero. -/
theorem learningRate_pos (h : config.validate = .ok ()) : 0 < config.learningRate := by
  have hfault := (validate_eq_ok_iff config).1 h
    (!(Arithmetic.less 0 config.learningRate && Arithmetic.isFinite config.learningRate),
      ⟨.learningRate, .notPositiveNumber⟩) (by simp [faults])
  simpa using hfault

/-- An accepted weight of the policy is above zero and at most one. -/
theorem blendWeight_mem (h : config.validate = .ok ()) :
    0 < config.blendWeight ∧ config.blendWeight ≤ 1 := by
  have hfault := (validate_eq_ok_iff config).1 h
    (!UnitInterval.openLow.holds config.blendWeight,
      ⟨.blendWeight, .outside config.blendWeight .openLow⟩) (by simp [faults])
  simpa [UnitInterval.holds] using hfault

end Config

/-- Snapshots under their paths, the last one first. -/
structure Shelf (α : Type) where
  /-- The snapshots. -/
  snapshots : List (Path × Parameters α)
  deriving Inhabited

instance {α : Type} : SnapshotStore (StateM (Shelf α)) α where
  makeFolders _ := return .ok ()
  save path parameters := do
    modify fun shelf => ⟨(path, parameters) :: shelf.snapshots⟩
    return .ok ()
  load path := do
    match (← get).snapshots.find? fun entry => entry.1 == path with
    | some entry => return .ok entry.2
    | none => return .error (.file path .notFound)

namespace Trainer

/-- A trainer starts with an optimizer of the usual settings. -/
theorem Started.usual {config : Config ℝ} {t : Trainer (Network ℝ) ℝ} (h : Started config t) :
    t.optimizer.Usual := by
  have husual := Optimizer.usual_ofRate config.learningRate
  rw [h.eq]
  exact ⟨husual.keepMean, husual.keepSquare, husual.margin⟩

theorem gradientBound_eq : (gradientBound : ℝ) = 100 := by
  rw [gradientBound]
  norm_num

theorem atMost_gradientBound : Arithmetic.atMost (-gradientBound : ℝ) gradientBound = true := by
  rw [Arithmetic.atMost_eq, gradientBound_eq]
  norm_num

/-- Exact training in batches of one transition. -/
noncomputable def exactConfig : Config ℝ where
  batchSize := 1
  discount := 0.5
  exploreStart := 0.5
  exploreStop := 0.25
  exploreDecay := 100.0
  learningRate := 0.01
  blendWeight := 0.5
  device := "cpu"
  epochs := 10
  loadModel := false
  loadPath := none
  rewardWeight := 0.5
  saveInterval := 1
  outputPath := ⟨"checkpoints"⟩
  memorySize := 2
  seed := 1
  inputSize := some 2
  hiddenSizes := []
  hiddenActivation := .relu

theorem validate_exactConfig : exactConfig.validate = .ok () := by
  rw [Config.validate_eq_ok_iff]
  norm_num [Config.faults, exactConfig, UnitInterval.holds]
  -- What is left compares machine integers.
  decide

/-- The trainer of `exactConfig` alone. -/
noncomputable def exactTrainer : Trainer (Network ℝ) ℝ :=
  atStart exactConfig (Network.drawPredictor 2 [] .relu (.ofSeed 1)).1

theorem fromConfig_exactTrainer : FromConfig (Shelf ℝ) exactConfig exactTrainer :=
  fromConfig_atStart validate_exactConfig rfl rfl

/-- The exact trainer has a run with an executed step. -/
theorem exists_exact_run : ∃ history t, Run (Shelf ℝ) exactTrainer history t ∧
    history.executed = 1 := by
  obtain ⟨report, t, hrun, hone⟩ := exists_executed_run atMost_gradientBound
    fromConfig_exactTrainer rfl rfl ⟨#[1, 2], 0, 1⟩ rfl default
  exact ⟨_, t, hrun, hone⟩

end Trainer

end DeferredReward
