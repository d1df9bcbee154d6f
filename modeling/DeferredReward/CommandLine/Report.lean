import DeferredReward.CommandLine.Episodes
import DeferredReward.Config.Reading

/-!
# Reports of failed runs

A run that fails reports the error and, below it, the chain of its causes from
the outermost inwards. Several causes are numbered.
-/

namespace DeferredReward.CommandLine

/-- An error with the chain of its causes. -/
structure Report where
  /-- The error. -/
  summary : String
  /-- The causes, outermost first. -/
  causes : List String
  deriving DecidableEq, Repr

namespace Report

/-- A text behind a mark; its further lines are indented by as much as the mark takes. -/
def hanging (mark text : String) : String :=
  let indent := String.ofList (List.replicate mark.length ' ')
  mark ++ ("\n" ++ indent).intercalate (text.splitOn "\n")

/-- The causes, one below the other. -/
def causeTexts : List String → List String
  | [] => []
  | [cause] => [hanging "    " cause]
  | causes => causes.zipIdx.map fun (cause, i) => hanging s!"    {i}: " cause

/-- The text of a report. -/
def text (r : Report) : String :=
  let lines := s!"Error: {r.summary}" ::
    (if r.causes.isEmpty then [] else ["", "Caused by:"] ++ causeTexts r.causes)
  "\n".intercalate lines

/-- The report of a configuration that could not be had. -/
def ofConfig (path : Path) (e : ConfigError) : Report :=
  ⟨s!"loading {path.text}", e.message :: match e with
    | .file _ cause => [cause.message]
    | .unreadable cause => [cause.message]
    | .rejected _ => []⟩

/-- The report of a snapshot that could not be used. -/
def ofSnapshot (e : SnapshotError) : Report :=
  ⟨e.message, [match e with
    | .file _ cause => cause.message
    | .content _ cause => cause.message
    | .unfit cause => cause.message]⟩

/-- The report of a trainer that could not be built. -/
def ofBuild : BuildError Float → Report
  | .config cause => ⟨cause.message (Decimal.ofFloat Config.messageLayout), []⟩
  | .snapshot cause => ofSnapshot cause
  | .network cause => ⟨cause.message, []⟩

/-- The report of a configuration without a number of features. -/
def missingInputSize : Report := ⟨s!"{Setting.inputSize.key} is required by the driver", []⟩

/-- The report of a run that ended before its time. -/
def ofRun (e : RunError) : Report := ⟨e.message, []⟩

end Report

end DeferredReward.CommandLine
