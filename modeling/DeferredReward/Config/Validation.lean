import DeferredReward.Config.Basic

/-!
# Which configurations are accepted

The faults of a configuration are listed in a fixed order, and the first one
present is reported. Main statement: `validate_eq_ok_iff`.
-/

namespace DeferredReward

/-- The intervals that settings are confined to. -/
inductive UnitInterval where
  /-- Strictly between zero and one. -/
  | openBoth
  /-- Above zero and at most one. -/
  | openLow
  /-- From zero to one, both included. -/
  | closed
  deriving DecidableEq, Repr

/-- The text of an interval. -/
def UnitInterval.text : UnitInterval → String
  | openBoth => "(0, 1)"
  | openLow => "(0, 1]"
  | closed => "[0, 1]"

/-- Whether a number lies in the interval. -/
def UnitInterval.holds {α : Type} [Arithmetic α] (interval : UnitInterval) (x : α) : Bool :=
  match interval with
  | openBoth => Arithmetic.less 0 x && Arithmetic.less x 1
  | openLow => Arithmetic.less 0 x && Arithmetic.atMost x 1
  | closed => Arithmetic.atMost 0 x && Arithmetic.atMost x 1

/-- What is wrong with a setting. -/
inductive Objection (α : Type) where
  /-- A count is zero, or a rate is not above zero. -/
  | notPositive
  /-- A rate is not a finite number above zero. -/
  | notPositiveNumber
  /-- A number lies outside its interval. -/
  | outside (value : α) (interval : UnitInterval)
  /-- The memory is smaller than a batch. -/
  | smallerThanBatch (memory batch : UInt64)
  /-- There is no snapshot to start from. -/
  | requiredToLoad
  /-- A hidden layer has no units. -/
  | emptyLayer
  /-- The number of features is not known when the network is to be built. -/
  | requiredToBuild

/-- A setting that is not accepted. -/
structure InvalidSetting (α : Type) where
  /-- The setting. -/
  setting : Setting
  /-- What is wrong with it. -/
  objection : Objection α

/-- The text of the objection, with numbers written by `number`. -/
def Objection.message {α : Type} (number : α → String) : Objection α → String
  | notPositive => "must be positive"
  | notPositiveNumber => "must be a positive number"
  | outside value interval => s!"{number value} is outside {interval.text}"
  | smallerThanBatch memory batch => s!"{memory} cannot hold a batch of {batch}"
  | requiredToLoad => s!"required when {Setting.loadModel.key} is set"
  | emptyLayer => "layers cannot be empty"
  | requiredToBuild => "required to build the prediction network"

/-- The text of the error. -/
def InvalidSetting.message {α : Type} (number : α → String) (e : InvalidSetting α) : String :=
  s!"invalid value for `{e.setting.key}`: {e.objection.message number}"

namespace Config

variable {α : Type} [Arithmetic α]

/-- Every possible fault in the order of reporting, with whether it is present. -/
def faults (c : Config α) : List (Bool × InvalidSetting α) :=
  let outside (setting : Setting) (value : α) (interval : UnitInterval) :=
    (!interval.holds value, (⟨setting, .outside value interval⟩ : InvalidSetting α))
  [(c.batchSize == 0, ⟨.batchSize, .notPositive⟩),
    outside .discount c.discount .openBoth,
    outside .blendWeight c.blendWeight .openLow,
    (!(Arithmetic.less 0 c.learningRate && Arithmetic.isFinite c.learningRate),
      ⟨.learningRate, .notPositiveNumber⟩),
    outside .rewardWeight c.rewardWeight .closed,
    outside .exploreStart c.exploreStart .closed,
    outside .exploreStop c.exploreStop .closed,
    (!Arithmetic.less 0 c.exploreDecay, ⟨.exploreDecay, .notPositive⟩),
    (c.epochs == 0, ⟨.epochs, .notPositive⟩),
    (c.saveInterval == 0, ⟨.saveInterval, .notPositive⟩),
    (c.memorySize < c.batchSize,
      ⟨.memorySize, .smallerThanBatch c.memorySize c.batchSize⟩),
    (c.loadModel && c.loadPath.isNone, ⟨.loadPath, .requiredToLoad⟩),
    (c.inputSize == some 0, ⟨.inputSize, .notPositive⟩),
    (c.hiddenSizes.contains 0, ⟨.hiddenSizes, .emptyLayer⟩)]

/-- Accepts a configuration, or reports its first fault. -/
def validate (c : Config α) : Except (InvalidSetting α) Unit :=
  match c.faults.find? (·.1) with
  | some fault => .error fault.2
  | none => .ok ()

/-- A configuration is accepted exactly when no fault is present. -/
theorem validate_eq_ok_iff (c : Config α) :
    c.validate = .ok () ↔ ∀ fault ∈ c.faults, fault.1 = false := by
  unfold validate
  cases h : c.faults.find? (·.1) with
  | none =>
    rw [List.find?_eq_none] at h
    simpa using h
  | some fault =>
    have hmem := List.mem_of_find?_eq_some h
    have hpresent := List.find?_some h
    constructor
    · intro e
      cases e
    · intro hall
      rw [hall fault hmem] at hpresent
      cases hpresent

end Config

end DeferredReward
