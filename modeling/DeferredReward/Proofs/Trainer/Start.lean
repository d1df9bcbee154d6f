import DeferredReward.Arithmetic.Double
import DeferredReward.Proofs.Trainer.Runs
import DeferredReward.Proofs.Trainer.Step
import DeferredReward.Storage.Tree

/-!
# Trainers at the start of a run

However a trainer of a stack of layers was built, both its networks have one
form, nothing has been learned and nothing is stored. The configuration and the
form of the networks stay what they were at the start of a run.

Main statements: `started_of_built`, `kindred_of_run`.
-/

namespace DeferredReward.Trainer

variable {α σ : Type} [Analysis α]

/-- The trainer of a configuration around a policy, before any operation. -/
def atStart (config : Config α) (policy : Network α) : Trainer (Network α) α where
  config := config
  policy := policy
  target := policy.overwritten policy.parameters
  optimizer := { Optimizer.ofRate config.learningRate with keepsPeak := true }
  memory := .ofSeed config.memorySize.toNat config.seed
  staging := .ofLength policy.inputSize?
  epoch := 0

/-- The target starts with the parameters of the policy. -/
theorem parameters_atStart (config : Config α) (policy : Network α) :
    (atStart config policy).target.parameters = policy.parameters :=
  (Network.parameters_overwritten policy policy.parameters).trans (Parameters.mapEntries_find? rfl)

/-- A trainer can be started around every stack of layers. -/
theorem start_eq (config : Config α) (policy : Network α) :
    start config policy = .ok (.ok (atStart config policy)) :=
  bind_eq_of_ok (Network.install_parameters policy)

/-- The trainer has just been built from an accepted configuration. -/
structure Started (config : Config α) (t : Trainer (Network α) α) : Prop where
  valid : config.validate = .ok ()
  eq : t = atStart config t.policy

namespace Started

variable {config : Config α} {t : Trainer (Network α) α}

theorem config_eq (h : Started config t) : t.config = config := congrArg Trainer.config h.eq

/-- Both networks of a trainer start with one form. -/
theorem form (h : Started config t) : t.target.form = t.policy.form := by
  have htarget := congrArg Trainer.target h.eq
  rw [htarget]
  exact Network.form_of_install (Network.install_parameters t.policy)

/-- The target starts with the parameters of the policy. -/
theorem parameters (h : Started config t) : t.target.parameters = t.policy.parameters := by
  have htarget := congrArg Trainer.target h.eq
  rw [htarget]
  exact parameters_atStart config t.policy

end Started

theorem started_of_start {config : Config α} {policy : Network α} {t : Trainer (Network α) α}
    (hvalid : config.validate = .ok ()) (h : start config policy = .ok (.ok t)) :
    Started config t ∧ t.policy = policy := by
  rw [start_eq] at h
  cases h
  exact ⟨⟨hvalid, rfl⟩, rfl⟩

/-- Putting a snapshot into the network keeps its form. -/
theorem form_of_warm {network policy : Network α} (h : policy = network ∨
    ∃ given, Trainable.install network given = .ok (.ok policy)) : policy.form = network.form := by
  rcases h with rfl | ⟨given, hinstall⟩
  · rfl
  · exact Network.form_of_install hinstall

section Store

variable [SnapshotStore (StateM σ) α]

/-- The trainer of a configuration has the predictor's form. -/
theorem started_of_fromConfig {config : Config α} {t : Trainer (Network α) α}
    (h : FromConfig σ config t) : Started config t ∧ ∃ inputSize,
      config.inputSize = some inputSize ∧ t.policy.form = (Network.drawPredictor (α := α)
        inputSize.toNat (config.hiddenSizes.map UInt64.toNat) config.hiddenActivation
        (.ofSeed config.seed)).1.form := by
  obtain ⟨hvalid, inputSize, hinputSize, network, policy, rfl, hpolicy, hstart⟩ :=
    start_of_fromConfig h
  obtain ⟨hstarted, rfl⟩ := started_of_start hvalid hstart
  exact ⟨hstarted, inputSize, hinputSize, form_of_warm hpolicy⟩

/-- The trainer of a given network has its form. -/
theorem started_of_fromNetwork {config : Config α} {network : Network α}
    {t : Trainer (Network α) α} (h : FromNetwork σ config network t) :
    Started config t ∧ t.policy.form = network.form := by
  obtain ⟨hvalid, policy, hpolicy, hstart⟩ := start_of_fromNetwork h
  obtain ⟨hstarted, rfl⟩ := started_of_start hvalid hstart
  exact ⟨hstarted, form_of_warm hpolicy⟩

/-- An accepted configuration without a snapshot to start from gives a trainer
around every stack of layers. -/
theorem fromNetwork_atStart [Inhabited σ] {config : Config α} (hvalid : config.validate = .ok ())
    (hcold : config.loadModel = false) (network : Network α) :
    FromNetwork σ config network (atStart config network) := by
  refine ⟨default, default, ?_⟩
  unfold ofNetwork
  rw [hvalid]
  unfold build
  rw [hcold]
  exact congrArg (·, default) (start_eq config network)

/-- An accepted configuration that tells the number of features and names no snapshot to start
from gives a trainer around the predictor it describes, and leaves the files alone. -/
theorem ofConfig_eq_of_cold {config : Config α} (hvalid : config.validate = .ok ())
    (hcold : config.loadModel = false) {inputSize : UInt64}
    (hinputSize : config.inputSize = some inputSize) (store : σ) :
    (ofConfig config : StateM σ _).run store =
      (.ok (.ok (atStart config (Network.drawPredictor inputSize.toNat
        (config.hiddenSizes.map UInt64.toNat) config.hiddenActivation (.ofSeed config.seed)).1)),
        store) := by
  unfold ofConfig
  rw [hvalid, hinputSize]
  unfold build
  rw [hcold]
  exact congrArg (·, store) (start_eq config _)

/-- An accepted configuration that tells the number of features gives a trainer
around the predictor it describes. -/
theorem fromConfig_atStart [Inhabited σ] {config : Config α} (hvalid : config.validate = .ok ())
    (hcold : config.loadModel = false) {inputSize : UInt64}
    (hinputSize : config.inputSize = some inputSize) :
    FromConfig σ config (atStart config (Network.drawPredictor inputSize.toNat
      (config.hiddenSizes.map UInt64.toNat) config.hiddenActivation (.ofSeed config.seed)).1) :=
  ⟨default, default, ofConfig_eq_of_cold hvalid hcold hinputSize default⟩

/-- The trainer can come from this configuration, around its predictor or
around any stack of layers. -/
def Built (σ : Type) [SnapshotStore (StateM σ) α] (config : Config α)
    (t : Trainer (Network α) α) : Prop :=
  FromConfig σ config t ∨ ∃ network, FromNetwork σ config network t

theorem started_of_built {config : Config α} {t : Trainer (Network α) α}
    (h : Built σ config t) : Started config t := by
  rcases h with h | ⟨network, h⟩
  · exact (started_of_fromConfig h).1
  · exact (started_of_fromNetwork h).1

/-- The trainers have one configuration, networks of one form and memories of
one capacity. -/
structure Kindred (first t : Trainer (Network α) α) : Prop where
  config : t.config = first.config
  policy : t.policy.form = first.policy.form
  target : t.target.form = first.policy.form
  capacity : t.memory.capacity = first.memory.capacity

/-- The networks of a trainer of that kind have one form. -/
theorem Kindred.form {β : Type} {first t : Trainer (Network β) β} (h : Kindred first t) :
    t.target.form = t.policy.form := h.target.trans h.policy.symm

/-- No operation changes the configuration, the form of a network or the
capacity of the memory. -/
theorem kindred_of_performs {first t t' : Trainer (Network α) α} {op : Operation α}
    {answer : Answer α} (hkin : Kindred first t) (h : Performs t op answer t') :
    Kindred first t' := by
  cases h with
  | predict | refuse | revise | clear | save =>
    exact ⟨hkin.config, hkin.policy, hkin.target, hkin.capacity⟩
  | stage h =>
    obtain ⟨staging, _, rfl⟩ := stage_eq_ok_iff.1 h
    exact ⟨hkin.config, hkin.policy, hkin.target, hkin.capacity⟩
  | commit =>
    have hcapacity := t.memory.capacity_pushAll t.staging.transitions.toList
    exact ⟨hkin.config, hkin.policy, hkin.target, hcapacity.trans hkin.capacity⟩
  | push transition =>
    have hcapacity := t.memory.capacity_push transition
    exact ⟨hkin.config, hkin.policy, hkin.target, hcapacity.trans hkin.capacity⟩
  | optimize h =>
    obtain ⟨_, _, rfl⟩ | ⟨_, _, _, hsame⟩ | ⟨_, _, moved, _, hdescends, rfl, _⟩ :=
      learn_cases hkin.form h
    · exact hkin
    · exact ⟨hsame.config.trans hkin.config, hsame.form.trans hkin.policy,
        hsame.target ▸ hkin.target, hsame.capacity.trans hkin.capacity⟩
    · exact ⟨hdescends.config.trans hkin.config, hdescends.policyForm.trans hkin.policy,
        hdescends.targetForm.trans hkin.target, hdescends.capacity.trans hkin.capacity⟩

/-- After any run both networks have the form that they had at the start. -/
theorem kindred_of_run {first t : Trainer (Network α) α} {history : History α}
    (hform : first.target.form = first.policy.form) (run : Run σ first history t) :
    Kindred first t :=
  run.invariant (fun _ t => Kindred first t) ⟨rfl, rfl, hform, rfl⟩ kindred_of_performs

/-- An operation is counted by the optimizer when it is an executed step. -/
theorem steps_of_performs {t t' : Trainer (Network α) α} {op : Operation α} {answer : Answer α}
    (hform : t.target.form = t.policy.form) (h : Performs t op answer t') :
    t'.optimizer.steps.toInt =
      t.optimizer.steps.toInt + if answer.isExecuted then 1 else 0 := by
  cases h with
  | predict | refuse | revise | commit | clear | push | save => exact (Int.add_zero _).symm
  | stage h =>
    obtain ⟨staging, _, rfl⟩ := stage_eq_ok_iff.1 h
    exact (Int.add_zero _).symm
  | optimize h =>
    obtain ⟨_, hskipped, rfl⟩ | ⟨_, _, hfailed, hsame⟩ |
      ⟨_, _, _, _, hdescends, rfl, hexecuted⟩ := learn_cases hform h
    · rw [Answer.isExecuted_optimized, hskipped]
      exact (Int.add_zero _).symm
    · rw [Answer.isExecuted_optimized, hfailed, hsame.optimizer]
      exact (Int.add_zero _).symm
    · rw [Answer.isExecuted_optimized, hexecuted]
      dsimp only
      rw [hdescends.optimizer, Optimizer.toInt_steps_after hdescends.countable]
      rfl

/-- The optimizer of a trainer has counted the executed steps of its run. -/
theorem steps_of_run {config : Config α} {first t : Trainer (Network α) α} {history : History α}
    (hstarted : Started config first) (run : Run σ first history t) :
    t.optimizer.steps.toInt = history.executed := by
  have hfirst : first.optimizer.steps.toInt = 0 := by
    rw [hstarted.eq]
    rfl
  have hboth := run.invariant
    (fun history t => Kindred first t ∧ t.optimizer.steps.toInt = history.executed)
    ⟨⟨rfl, rfl, hstarted.form, rfl⟩, hfirst⟩ <| by
      intro history t op answer t' ⟨hkin, hcount⟩ hop
      have hstep := steps_of_performs hkin.form hop
      refine ⟨kindred_of_performs hkin hop, ?_⟩
      rw [hstep, hcount, History.executed_append]
      split <;> simp
  exact hboth.2

end Store

/-- Training in batches of one transition. -/
def singleConfig : Config Float where
  batchSize := 1
  discount := 0.5
  exploreStart := 0.9
  exploreStop := 0.1
  exploreDecay := 100
  learningRate := 0.01
  blendWeight := 0.5
  device := "cpu"
  epochs := 10
  loadModel := false
  loadPath := none
  rewardWeight := 0.5
  saveInterval := 1
  outputPath := ⟨"checkpoints"⟩
  memorySize := 2
  seed := 1
  inputSize := some 2
  hiddenSizes := []
  hiddenActivation := .relu

theorem validate_singleConfig : singleConfig.validate = .ok () := by
  rw [Config.validate_eq_ok_iff]
  decide +kernel

/-- A trainer around one dense layer from two features to one output. -/
def pairTrainer : Trainer (Network Float) Float :=
  atStart singleConfig ⟨[.dense (.ofParts ⟨2, 1, #[1, 2], rfl⟩ (.row #[3]))]⟩

theorem built_pairTrainer : Built FileTree singleConfig pairTrainer :=
  .inr ⟨_, fromNetwork_atStart validate_singleConfig rfl _⟩

/-- An observation of two features. -/
def pairTransition : Transition Float := ⟨#[1, 2], 0.5, 1⟩

/-- An observation of three features. -/
def wideTransition : Transition Float := ⟨#[1, 2, 3], 0.5, 1⟩

end DeferredReward.Trainer
