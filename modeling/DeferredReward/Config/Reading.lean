import DeferredReward.Arithmetic.Double
import DeferredReward.Config.Validation
import DeferredReward.Json.Reader
import DeferredReward.Json.Wanted

/-!
# Reading configurations

A configuration is an object whose members are the settings under their keys.
Of repeated members the last counts, unknown ones do not. The values are looked
at in the order of their keys, so the first bad one in this order is reported;
only then are required settings missed, in the order of the settings; and only
a complete configuration is validated.
-/

namespace DeferredReward

/-- Why a configuration could not be had. -/
inductive ConfigError where
  /-- The file could not be read. -/
  | file (path : Path) (cause : IoFault)
  /-- The text or a value is not what a configuration needs. -/
  | unreadable (cause : Json.ReadError)
  /-- A setting is not accepted. -/
  | rejected (cause : InvalidSetting Float)

/-- Numbers in messages are written without exponents, and whole ones without a
mark. Of two equally near decimals the larger one is taken. -/
def Config.messageLayout : Decimal.Layout := ⟨fun _ => true, "", .larger⟩

example : (Decimal.mk 15 20).text Config.messageLayout = "1500000000000000000000" := by
  decide +kernel

example : (Decimal.mk 15 (-7)).text Config.messageLayout = "0.0000015" := by decide +kernel

/-- The text of the error. -/
def ConfigError.message : ConfigError → String
  | file path cause => s!"failed to read config file {path.text}: {cause.message}"
  | unreadable cause => s!"malformed configuration: {cause.message}"
  | rejected cause => cause.message (Decimal.ofFloat Config.messageLayout)

open Json in
/-- The activation that a value names: its name, or an object whose only member
has this name and the absent value. -/
def Activation.ofJson (value : Json) : Except Mismatch Activation :=
  let named (name : String) : Except Mismatch Activation :=
    match Activation.ofName? name with
    | some activation => .ok activation
    | none => .error (.unknownVariant name (Activation.all.map Activation.name))
  match value with
  | .string name => named name
  | .object members =>
    match (members.map Prod.fst).eraseDups with
    | [name] => do
      let activation ← named name
      match (lastMember? members name).getD .null with
      | .null => return activation
      | content => wrongType "unit" content
    | _ => .error (.wrongValue .map "map with a single key")
  | value => wrongType "string or map" value

namespace Config

open Json

/-- The number of transitions kept unless the configuration says otherwise. -/
def standardMemorySize : UInt64 := 10000

/-- The seed unless the configuration says otherwise. -/
def standardSeed : UInt64 := 42

/-- The hidden layers unless the configuration says otherwise. -/
def standardHiddenSizes : List UInt64 := [64, 64]

/-- The value of a setting among members, converted when it is there. -/
def setting? {β : Type} (members : List (String × Json)) (setting : Setting)
    (convert : Json → Except Mismatch β) : Except Mismatch (Option β) :=
  match lastMember? members setting.key with
  | some value => (convert value).map some
  | none => .ok none

/-- The value of a setting that must be there. -/
def required {β : Type} (setting : Setting) : Option β → Except Mismatch β
  | some value => .ok value
  | none => .error (.missingField setting.key)

/-- The configuration that members describe, accepted or not. -/
def decode (members : List (String × Json)) : Except Mismatch (Config Float) := do
  let size := word "usize"
  let count := word "u64"
  let path := fun value => (plainText "path string" value).map Path.mk
  let hiddenActivation ← setting? members .hiddenActivation Activation.ofJson
  let hiddenSizes ← setting? members .hiddenSizes (sequence size)
  let inputSize ← setting? members .inputSize (optional size)
  let batchSize ← setting? members .batchSize size
  let device ← setting? members .device (plainText "a string")
  let epochs ← setting? members .epochs count
  let exploreDecay ← setting? members .exploreDecay float
  let exploreStop ← setting? members .exploreStop float
  let exploreStart ← setting? members .exploreStart float
  let discount ← setting? members .discount float
  let loadModel ← setting? members .loadModel truth
  let loadPath ← setting? members .loadPath (optional path)
  let learningRate ← setting? members .learningRate float
  let memorySize ← setting? members .memorySize size
  let outputPath ← setting? members .outputPath path
  let rewardWeight ← setting? members .rewardWeight float
  let saveInterval ← setting? members .saveInterval count
  let seed ← setting? members .seed count
  let blendWeight ← setting? members .blendWeight float
  return {
    batchSize := ← required .batchSize batchSize
    discount := ← required .discount discount
    exploreStart := ← required .exploreStart exploreStart
    exploreStop := ← required .exploreStop exploreStop
    exploreDecay := ← required .exploreDecay exploreDecay
    learningRate := ← required .learningRate learningRate
    blendWeight := ← required .blendWeight blendWeight
    device := ← required .device device
    epochs := ← required .epochs epochs
    loadModel := ← required .loadModel loadModel
    loadPath := loadPath.getD none
    rewardWeight := ← required .rewardWeight rewardWeight
    saveInterval := ← required .saveInterval saveInterval
    outputPath := ← required .outputPath outputPath
    memorySize := memorySize.getD standardMemorySize
    seed := seed.getD standardSeed
    inputSize := inputSize.getD none
    hiddenSizes := hiddenSizes.getD standardHiddenSizes
    hiddenActivation := hiddenActivation.getD default }

/-- The accepted configuration that members describe. -/
def ofMembers (members : List (String × Json)) : Except ConfigError (Config Float) :=
  match decode members with
  | .error cause => .error (.unreadable ⟨.mismatch cause, none⟩)
  | .ok config =>
    match config.validate with
    | .error cause => .error (.rejected cause)
    | .ok () => .ok config

/-- Reads the members of an object. -/
def objectMembers : Read (List (String × Json)) := fun text => do
  match ← valueStart text with
  | ('{', rest) => members (value .text (depthLimit - 1)) rest
  | (c, rest) => unexpected .text "a map" (c :: rest)

/-- The accepted configuration that a text describes. -/
def ofText (text : String) : Except ConfigError (Config Float) :=
  match document objectMembers text with
  | .error cause => .error (.unreadable cause)
  | .ok members => ofMembers members

/-- The accepted configuration in a file. -/
def ofFile {m : Type → Type} [Monad m] [FileSystem m] (path : Path) :
    m (Except ConfigError (Config Float)) := do
  match ← FileSystem.read path with
  | .error fault => return .error (.file path fault.cause)
  | .ok text => return ofText text

end Config

end DeferredReward
