import DeferredReward.CommandLine.Arguments
import DeferredReward.CommandLine.Report

/-!
# The program

The whole run of the command line over any file system: from the arguments to
the exit code and the texts for the two output streams.
-/

namespace DeferredReward.CommandLine

/-- What a finished program leaves. -/
structure Exit where
  /-- The exit code. -/
  code : UInt32
  /-- The text for the standard output. -/
  output : String
  /-- The text for the error stream. -/
  errors : String
  deriving DecidableEq, Repr

/-- The explanation of the options. -/
def helpText : String :=
  "Train a probability predictor on synthetic episodes\n\n" ++
  "OPTIONS:\n" ++
  "    -c, --config <file>                   JSON file with the settings\n" ++
  "    -n, --episodes <count>                Maximum number of episodes [default: 1000]\n" ++
  "        --episode_length <count>          Observations in an episode [default: 8]\n" ++
  "        --plot                            Show the smoothed losses at the end\n" ++
  "        --moving_average_window <count>   Losses averaged into one [default: 20]\n" ++
  "    -h, --help                            Print this explanation\n" ++
  "    -V, --version                         Print the version\n"

/-- The version of the program. -/
def versionText : String := "deferred_reward 0.0.1\n"

/-- The end of a program that has nothing to run. -/
def Exit.ofUsage : Usage → Exit
  | .help => ⟨0, helpText, ""⟩
  | .version => ⟨0, versionText, ""⟩
  | .invalid => ⟨1, "", "error: the arguments are not understood; see --help\n"⟩

/-- The end of a failed program. -/
def Exit.ofReport (r : Report) : Exit := ⟨1, "", r.text ++ "\n"⟩

/-- The end of a program that met a fault. -/
def Exit.ofFault : Exit := ⟨101, "", "the operands of a matrix operation do not fit\n"⟩

/-- The end of a finished run. -/
def Exit.ofRun (args : Arguments) (run : Run Float) : Exit :=
  let curve := if args.plot then blockAverages args.window run.losses.reverse.toArray else []
  ⟨0, String.join (curve.map fun x => Decimal.ofFloat Config.messageLayout x ++ "\n"), ""⟩

variable {m : Type → Type} [Monad m] [FileSystem m]

/-- A run of an accepted configuration. -/
def runConfig (args : Arguments) (config : Config Float) : m Exit := do
  match config.inputSize with
  | none => return .ofReport .missingInputSize
  | some width =>
    match ← Trainer.ofConfig config with
    | .error _ => return .ofFault
    | .ok (.error cause) => return .ofReport (.ofBuild cause)
    | .ok (.ok trainer) =>
      let run : Run Float := ⟨trainer, .ofSeed config.seed, []⟩
      match ← playEpisodes width.toNat args.episodeLength.toNat args.episodes.toNat run with
      | .error _ => return .ofFault
      | .ok (.error cause) => return .ofReport (.ofRun cause)
      | .ok (.ok run) => return .ofRun args run

/-- The program for a list of arguments. -/
def program (args : List String) : m Exit := do
  match parse args with
  | .error usage => return .ofUsage usage
  | .ok args =>
    match ← Config.ofFile args.config with
    | .error cause => return .ofReport (.ofConfig args.config cause)
    | .ok config => runConfig args config

end DeferredReward.CommandLine
