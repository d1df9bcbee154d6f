import DeferredReward.Storage.Basic

/-!
# The arguments of the command line

Options are given by a long name, with their value after an equals sign or as
the next argument, or by a letter, with the value attached or as the next
argument. An argument that starts with a dash is never a value. The arguments
are first scanned from left to right, which stops at a request for help or for
the version and at anything unknown; only then are missing, repeated and bad
values looked for. An option that has a standard value takes it when it is left
out and also when it is named without a value.
-/

namespace DeferredReward.CommandLine

/-- What the program is asked to do. -/
structure Arguments where
  /-- The configuration file. -/
  config : Path
  /-- The largest number of episodes. -/
  episodes : UInt64
  /-- The number of observations in an episode. -/
  episodeLength : UInt64
  /-- Whether the smoothed losses are shown at the end. -/
  plot : Bool
  /-- The number of losses averaged into one. -/
  window : UInt64
  deriving DecidableEq, Repr

/-- Why the arguments do not ask for a run. -/
inductive Usage where
  /-- The options are to be explained. -/
  | help
  /-- The version is to be told. -/
  | version
  /-- The arguments are not understood. -/
  | invalid
  deriving DecidableEq, Repr

/-- The options. -/
inductive Parameter where
  | config
  | episodes
  | episodeLength
  | plot
  | window
  deriving DecidableEq, Repr

/-- Whether the option stands for itself, without a value. -/
def Parameter.isSwitch (p : Parameter) : Bool := p == .plot

/-- One use of an option, with the value given for it so far. -/
structure Occurrence where
  parameter : Parameter
  value : Option String
  deriving DecidableEq, Repr

/-- The option with that long name. -/
def longOption? : String → Option Parameter
  | "config" => some .config
  | "episodes" => some .episodes
  | "episode_length" => some .episodeLength
  | "plot" => some .plot
  | "moving_average_window" => some .window
  | _ => none

/-- The option with that letter. -/
def shortOption? : Char → Option Parameter
  | 'c' => some .config
  | 'n' => some .episodes
  | _ => none

/-- Whether an argument starts an option. A dash alone is a value. -/
def startsOption (arg : String) : Bool := arg.startsWith "-" && arg != "-"

/-- A value without the equals signs before it. -/
def attachedValue (value : List Char) : String := String.ofList (value.dropWhile (· == '='))

/-- The use of an option that a long argument makes. The value of a switch is ignored. -/
def longUse (arg : List Char) : Except Usage Occurrence :=
  let body := arg.dropWhile (· == '-')
  let name := String.ofList (body.takeWhile (· != '='))
  let value := match body.dropWhile (· != '=') with
    | [] => none
    | _ :: value => some (attachedValue value)
  if name = "help" then .error .help
  else if name = "version" then .error .version
  else match longOption? name with
    | some p => .ok ⟨p, if p.isSwitch then none else value⟩
    | none => .error .invalid

/-- The use of an option that an argument of letters makes. -/
def shortUse : List Char → Except Usage Occurrence
  | 'h' :: _ => .error .help
  | 'V' :: _ => .error .version
  | c :: value =>
    match shortOption? c with
    | some p => .ok ⟨p, if value.isEmpty then none else some (attachedValue value)⟩
    | none => .error .invalid
  | [] => .error .invalid

/-- The uses of options in order. `waiting` is the last use when it still wants
its value. -/
def scan : (waiting : Option Parameter) → List String → Except Usage (List Occurrence)
  | waiting, [] => .ok (waiting.toList.map fun p => ⟨p, none⟩)
  | waiting, arg :: rest => do
    if startsOption arg then
      let unanswered := waiting.toList.map fun p => ⟨p, none⟩
      if arg = "--" then
        if rest.isEmpty then return unanswered else throw .invalid
      else
        let use ← if arg.startsWith "--" then longUse arg.toList else shortUse arg.toList.tail
        if use.parameter.isSwitch || use.value.isSome then
          return unanswered ++ use :: (← scan none rest)
        else return unanswered ++ (← scan (some use.parameter) rest)
    else
      match waiting with
      | some p => return ⟨p, some arg⟩ :: (← scan none rest)
      | none => throw .invalid

/-- A number of 64 bits in decimal digits, with or without a plus sign. -/
def number? (text : String) : Option UInt64 :=
  let digits := match text.toList with
    | '+' :: rest => rest
    | chars => chars
  if !digits.isEmpty && digits.all Char.isDigit then
    let n := digits.foldl (fun n c => n * 10 + (c.toNat - '0'.toNat)) 0
    if n < UInt64.size then some (UInt64.ofNat n) else none
  else none

/-- The value given for an option. -/
def valueOf? (uses : List Occurrence) (p : Parameter) : Option String :=
  (uses.find? fun use => use.parameter == p).bind Occurrence.value

/-- The value of a numeric option, which is the standard one when none is given. -/
def numberOr (standard : UInt64) (uses : List Occurrence) (p : Parameter) :
    Except Usage UInt64 :=
  match valueOf? uses p with
  | none => .ok standard
  | some text =>
    match number? text with
    | some n => .ok n
    | none => .error .invalid

/-- The arguments that the uses of options amount to. Every option may be used
once, and the configuration must be named. -/
def ofUses (uses : List Occurrence) : Except Usage Arguments := do
  if (uses.map Occurrence.parameter).eraseDups.length ≠ uses.length then throw .invalid
  match valueOf? uses .config with
  | none => throw .invalid
  | some config =>
    return {
      config := ⟨config⟩
      episodes := ← numberOr 1000 uses .episodes
      episodeLength := ← numberOr 8 uses .episodeLength
      plot := uses.any fun use => use.parameter == .plot
      window := ← numberOr 20 uses .window }

/-- What a list of arguments asks for. -/
def parse (args : List String) : Except Usage Arguments := do
  ofUses (← scan none args)

end DeferredReward.CommandLine
