import DeferredReward.Config.Basic
import DeferredReward.Json.Text

/-!
# Writing configurations

The settings in their order, each under its key. A setting that is not given is
written as the absent value.
-/

namespace DeferredReward.Config

open Json

/-- The value of a configuration. -/
def toJson (c : Config Float) : Json :=
  let word (n : UInt64) : Json := .ofNat n.toNat
  let path (p : Path) : Json := .string p.text
  .object ([
    (Setting.batchSize, word c.batchSize),
    (.discount, .ofFloat c.discount),
    (.exploreStart, .ofFloat c.exploreStart),
    (.exploreStop, .ofFloat c.exploreStop),
    (.exploreDecay, .ofFloat c.exploreDecay),
    (.learningRate, .ofFloat c.learningRate),
    (.blendWeight, .ofFloat c.blendWeight),
    (.device, .string c.device),
    (.epochs, word c.epochs),
    (.loadModel, .bool c.loadModel),
    (.loadPath, (c.loadPath.map path).getD .null),
    (.rewardWeight, .ofFloat c.rewardWeight),
    (.saveInterval, word c.saveInterval),
    (.outputPath, path c.outputPath),
    (.memorySize, word c.memorySize),
    (.seed, word c.seed),
    (.inputSize, (c.inputSize.map word).getD .null),
    (.hiddenSizes, .array (c.hiddenSizes.map word)),
    (.hiddenActivation, .string c.hiddenActivation.name)].map
      fun entry => (entry.1.key, entry.2))

end DeferredReward.Config
