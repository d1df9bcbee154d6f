import DeferredReward.Arithmetic
import DeferredReward.Network.Activation
import DeferredReward.Storage.Basic

/-!
# Configurations

A configuration holds everything that a training run is told: the sizes and
rates of training, the files it reads and writes, and the shape of the
predictor. Each setting has a key of its own in texts and messages.
-/

namespace DeferredReward

/-- The settings that a configuration consists of. -/
inductive Setting where
  | batchSize
  | discount
  | exploreStart
  | exploreStop
  | exploreDecay
  | learningRate
  | blendWeight
  | device
  | epochs
  | loadModel
  | loadPath
  | rewardWeight
  | saveInterval
  | outputPath
  | memorySize
  | seed
  | inputSize
  | hiddenSizes
  | hiddenActivation
  deriving DecidableEq, Repr

/-- The key of a setting. -/
def Setting.key : Setting → String
  | batchSize => "training.batch_size"
  | discount => "training.gamma"
  | exploreStart => "training.eps_start"
  | exploreStop => "training.eps_end"
  | exploreDecay => "training.eps_decay"
  | learningRate => "training.lr"
  | blendWeight => "training.tau"
  | device => "training.device"
  | epochs => "training.epochs"
  | loadModel => "training.load_model"
  | loadPath => "training.load_path"
  | rewardWeight => "training.reward_weight"
  | saveInterval => "training.save_interval"
  | outputPath => "training.output_path"
  | memorySize => "training.memory_size"
  | seed => "training.seed"
  | inputSize => "model.input_size"
  | hiddenSizes => "model.hidden_sizes"
  | hiddenActivation => "model.hidden_activation"

/-- What a training run is told. -/
structure Config (α : Type) where
  /-- The number of transitions in a batch. -/
  batchSize : UInt64
  /-- The weight of the slow network's prediction in an expected value. -/
  discount : α
  /-- The exploration rate before the first step. -/
  exploreStart : α
  /-- The exploration rate that is approached. -/
  exploreStop : α
  /-- The number of steps in which exploration decays. -/
  exploreDecay : α
  /-- The learning rate of the optimizer. -/
  learningRate : α
  /-- The weight of the trained network when the slow one follows it. -/
  blendWeight : α
  /-- Where to compute; a hint without effect. -/
  device : String
  /-- The last epoch that does not end training. -/
  epochs : UInt64
  /-- Whether to start from a snapshot. -/
  loadModel : Bool
  /-- The snapshot to start from. -/
  loadPath : Option Path
  /-- What stays of a reward when it is revised. -/
  rewardWeight : α
  /-- The number of epochs from one checkpoint to the next. -/
  saveInterval : UInt64
  /-- The folder of the checkpoints. -/
  outputPath : Path
  /-- The number of transitions that the memory keeps. -/
  memorySize : UInt64
  /-- The seed of everything random. -/
  seed : UInt64
  /-- The number of features of an observation. -/
  inputSize : Option UInt64
  /-- The numbers of units of the hidden layers. -/
  hiddenSizes : List UInt64
  /-- The activation of the hidden layers. -/
  hiddenActivation : Activation

end DeferredReward
