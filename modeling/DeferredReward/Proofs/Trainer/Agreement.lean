import DeferredReward.Proofs.Trainer.Milestones
import DeferredReward.Proofs.Trainer.Readiness

/-!
# What the parts of a trainer agree on

Both networks of a trainer and its optimizer keep matrices by name. Through
every run they keep them under the names of the network that the trainer was
built around, in its order and with its shapes, whatever snapshot it started
from; the optimizer does so from its first step on and has no matrices before.
The optimizer and the trainer count the executed steps alike.

Main statement: `layouts_agree`.
-/

namespace DeferredReward.Trainer

variable {α σ : Type} [Analysis α] [SnapshotStore (StateM σ) α]

/-- The trainer can come from this configuration around this network, which was
given or is the predictor that the configuration describes. -/
inductive BuiltAround (σ : Type) [SnapshotStore (StateM σ) α] (config : Config α)
    (network : Network α) (t : Trainer (Network α) α) : Prop where
  /-- The network was given. -/
  | given (h : FromNetwork σ config network t)
  /-- The network is the predictor of the configuration. -/
  | described {inputSize : UInt64} (h : FromConfig σ config t)
      (hinputSize : config.inputSize = some inputSize)
      (hnetwork : network = (Network.drawPredictor inputSize.toNat
        (config.hiddenSizes.map UInt64.toNat) config.hiddenActivation (.ofSeed config.seed)).1)

/-- Whatever snapshot a trainer starts from, its policy has the form of the network. -/
theorem started_of_builtAround {config : Config α} {network : Network α}
    {t : Trainer (Network α) α} (h : BuiltAround σ config network t) :
    Started config t ∧ t.policy.form = network.form := by
  cases h with
  | given h => exact started_of_fromNetwork h
  | described h hinputSize hnetwork =>
    obtain ⟨hstarted, width, hwidth, hform⟩ := started_of_fromConfig h
    rw [hinputSize] at hwidth
    cases hwidth
    subst hnetwork
    exact ⟨hstarted, hform⟩

/-- The moments are none before the first executed step and those of exactly the
parameters from then on. -/
theorem Milestones.layout_moments {config : Config α} {first t : Trainer (Network α) α}
    {history : History α} {passed : List (Trainer (Network α) α)} (hstarted : Started config first)
    (h : Milestones σ first history passed t) :
    (passed = [] ∧ t.optimizer.moments = .empty) ∨
      (passed ≠ [] ∧
        Parameters.layout t.optimizer.moments = first.policy.parameters.layout) := by
  refine h.invariant hstarted.form
    (fun passed t => (passed = [] ∧ t.optimizer.moments = .empty) ∨
      (passed ≠ [] ∧ Parameters.layout t.optimizer.moments = first.policy.parameters.layout))
    ?_ ?_ ?_
  · left
    rw [hstarted.eq]
    exact ⟨rfl, rfl⟩
  · intro passed t t' hmoments hsame
    rw [hsame.optimizer]
    exact hmoments
  · intro passed t gradients t' hkin _ hmoments hadvances
    right
    have hpolicy := Network.layout_of_form hkin.policy
    have hbefore : t.optimizer.moments = .empty ∨
        Parameters.layout t.optimizer.moments = t.policy.parameters.layout := by
      rcases hmoments with ⟨_, hempty⟩ | ⟨_, hlayout⟩
      · exact .inl hempty
      · exact .inr (hlayout.trans hpolicy.symm)
    have hafter := Optimizer.layout_moments_after hadvances.unreshaped hbefore gradients
    rw [hadvances.optimizer]
    exact ⟨List.append_ne_nil_of_right_ne_nil _ (List.cons_ne_nil _ _), hafter.trans hpolicy⟩

/-- After any run the parameters of both networks are listed as those of the
network that the trainer was built around: a weight and a bias for each dense
layer, layer by layer. The optimizer has no moments before the first executed
step and then moments for exactly these, and it has counted the epochs. -/
theorem layouts_agree {config : Config α} {network : Network α} {first t : Trainer (Network α) α}
    {history : History α} (hbuilt : BuiltAround σ config network first)
    (hrun : Run σ first history t) :
    network.parameters.layout = Network.layoutFrom 0 network.form ∧
      t.policy.parameters.layout = network.parameters.layout ∧
      t.target.parameters.layout = network.parameters.layout ∧
      (history.executed = 0 → t.optimizer.moments = .empty) ∧
      (0 < history.executed →
        Parameters.layout t.optimizer.moments = network.parameters.layout) ∧
      t.optimizer.steps.toInt = t.epoch.toNat := by
  obtain ⟨hstarted, hform⟩ := started_of_builtAround hbuilt
  have hkin := kindred_of_run hstarted.form hrun
  have hfirst := Network.layout_of_form hform
  obtain ⟨passed, hpassed⟩ := exists_milestones hrun
  have hlength := hpassed.length_eq
  have hmoments := hpassed.layout_moments hstarted
  refine ⟨network.layout_parameters, Network.layout_of_form (hkin.policy.trans hform),
    Network.layout_of_form (hkin.target.trans hform), ?_, ?_, steps_eq_epoch hstarted hrun⟩
  · intro hnone
    rcases hmoments with ⟨_, hempty⟩ | ⟨hne, _⟩
    · exact hempty
    · exact absurd (List.length_eq_zero_iff.1 (hlength.trans hnone)) hne
  · intro hsome
    rcases hmoments with ⟨hnil, _⟩ | ⟨_, hlayout⟩
    · rw [hnil, List.length_nil] at hlength
      omega
    · exact hlayout.trans hfirst

/-- The predictor of two features without hidden layers has one dense layer; its
two matrices are those that the target and, after one executed step, the
optimizer have too. -/
theorem layouts_agree_singleTrainer :
    ∃ report t, Run FileTree singleTrainer
        [(.push pairTransition, .done), (.optimize, .optimized (.ok report))] t ∧
      t.policy.parameters.layout = [("layers.0.weight", ⟨2, 1⟩), ("layers.0.bias", ⟨1, 1⟩)] ∧
      t.target.parameters.layout = [("layers.0.weight", ⟨2, 1⟩), ("layers.0.bias", ⟨1, 1⟩)] ∧
      Parameters.layout t.optimizer.moments =
        [("layers.0.weight", ⟨2, 1⟩), ("layers.0.bias", ⟨1, 1⟩)] ∧
      t.optimizer.steps.toInt = t.epoch.toNat := by
  have hbuilt : FromConfig FileTree singleConfig singleTrainer :=
    fromConfig_atStart validate_singleConfig rfl rfl
  obtain ⟨report, t, hrun, hone⟩ :=
    exists_executed_run (by decide) hbuilt rfl rfl pairTransition rfl .empty
  obtain ⟨hlayout, hpolicy, htarget, _, hmoments, hcount⟩ :=
    layouts_agree (.described hbuilt rfl rfl) hrun
  have hnames : Network.layoutFrom 0 (Network.drawPredictor (α := Float) 2 [] .relu
      (.ofSeed 1)).1.form = [("layers.0.weight", ⟨2, 1⟩), ("layers.0.bias", ⟨1, 1⟩)] := by
    decide
  have hmatrices := hlayout.trans hnames
  refine ⟨report, t, hrun, hpolicy.trans hmatrices, htarget.trans hmatrices, ?_, hcount⟩
  exact (hmoments (by omega)).trans hmatrices

end DeferredReward.Trainer
