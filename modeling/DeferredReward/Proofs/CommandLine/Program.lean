import DeferredReward.CommandLine.Program
import DeferredReward.Proofs.CommandLine.Training
import Mathlib.Algebra.Order.Floor.Div

/-!
# The run of the program

What the program does on an accepted configuration without a snapshot to start
from, as long as its output folder can be written: how it ends, which episodes
have an executed step, and which files it leaves.

Main statement: `program_trains`.
-/

namespace DeferredReward

/-- A configuration is had from a file by reading its text. -/
theorem Config.run_ofFile (path : Path) (tree : FileTree) :
    (Config.ofFile path : StateM FileTree _).run tree =
      (match tree.read path with
        | .error fault => .error (.file path fault.cause)
        | .ok text => Config.ofText text, tree) := by
  have hrun : (Config.ofFile path : StateM FileTree _).run tree =
      StateT.run (match tree.read path with
        | .error fault => return .error (.file path fault.cause)
        | .ok text => return Config.ofText text : StateM FileTree (Except ConfigError _)) tree :=
    rfl
  rw [hrun]
  cases tree.read path <;> rfl

/-- A configuration that could be had from a file is accepted. -/
theorem Config.validate_of_ofFile {path : Path} {tree tree' : FileTree} {config : Config Float}
    (h : (Config.ofFile path : StateM FileTree _).run tree = (.ok config, tree')) :
    config.validate = .ok () := by
  rw [Config.run_ofFile] at h
  cases hread : tree.read path with
  | error fault =>
    rw [hread] at h
    cases h
  | ok text =>
    rw [hread] at h
    have htext : Config.ofText text = .ok config := congrArg Prod.fst h
    unfold Config.ofText at htext
    split at htext
    · cases htext
    · unfold Config.ofMembers at htext
      split at htext
      · cases htext
      · split at htext
        · cases htext
        · rename_i hvalid
          cases htext
          exact hvalid

namespace CommandLine

open Trainer (AcceptsCheckpoints)
open FileTree (Inside)

theorem checkpointName_ofNat {epoch : ℕ} (h : epoch < 2 ^ 64) :
    checkpointName (UInt64.ofNat epoch) = s!"epoch_{epoch}.json" := by
  have hsame : checkpointName (UInt64.ofNat epoch) =
      s!"epoch_{(UInt64.ofNat epoch).toNat}.json" := rfl
  rw [hsame, UInt64.toNat_ofNat_of_lt' h]

/-- The number of episodes after which the memory is still short of a batch. -/
theorem warmup_bounds {batch length : ℕ} (hbatch : 0 < batch) (hlength : 0 < length) :
    (∀ count, 1 ≤ count → count ≤ batch ⌈/⌉ length - 1 → length * count < batch) ∧
      batch ≤ length * (batch ⌈/⌉ length - 1 + 1) := by
  have hceil : ∀ count, batch ⌈/⌉ length ≤ count ↔ batch ≤ length * count := fun count =>
    ceilDiv_le_iff_le_mul hlength
  have hpos : 0 < batch ⌈/⌉ length := by
    by_contra hzero
    have hnone := (hceil 0).1 (by omega)
    omega
  constructor
  · intro count hcount hle
    by_contra hlarge
    have hall := (hceil count).2 (by omega)
    omega
  · exact (hceil _).1 (by omega)

/-- So many episodes are skipped: those that leave the memory short of a batch, which are all when
they are empty. -/
theorem exists_skipped {batch : ℕ} (hbatch : 0 < batch) (length allowed : ℕ) :
    ∃ skipped, (∀ count, 1 ≤ count → count ≤ min allowed skipped → 0 + length * count < batch) ∧
      (skipped < allowed → batch ≤ 0 + length * (skipped + 1)) ∧
      (0 < length → skipped = batch ⌈/⌉ length - 1) ∧ (length = 0 → skipped = allowed) := by
  rcases Nat.eq_zero_or_pos length with rfl | hlength
  · refine ⟨allowed, fun count _ _ => ?_, fun hless => absurd hless (Nat.lt_irrefl _),
      fun hpos => absurd hpos (Nat.lt_irrefl _), fun _ => rfl⟩
    rw [Nat.zero_mul]
    exact hbatch
  · obtain ⟨hfew, henough⟩ := warmup_bounds hbatch hlength
    refine ⟨batch ⌈/⌉ length - 1, fun count hcount hle => ?_, fun _ => ?_, fun _ => rfl,
      fun hzero => absurd hzero hlength.ne'⟩
    · rw [Nat.zero_add]
      exact hfew count hcount (by omega)
    · rw [Nat.zero_add]
      exact henough

/-- The program ends as its episodes do. -/
theorem program_of_plays {args : List String} {arguments : Arguments}
    (hparse : parse args = .ok arguments) (hplot : arguments.plot = false) {tree final : FileTree}
    {config : Config Float}
    (hconfig : (Config.ofFile arguments.config : StateM FileTree _).run tree = (.ok config, tree))
    {width : UInt64} (hwidth : config.inputSize = some width)
    {trainer : Trainer (Network Float) Float}
    (hmade : (Trainer.ofConfig config : StateM FileTree _).run tree = (.ok (.ok trainer), tree))
    {reports : List (StepReport Float)} {last : Run Float}
    (hplays : Plays width.toNat arguments.episodeLength.toNat arguments.episodes.toNat
      ⟨trainer, .ofSeed config.seed, []⟩ tree reports last final) :
    (program args : StateM FileTree _).run tree = (⟨0, "", ""⟩, final) := by
  have hrun : (runConfig arguments config : StateM FileTree _).run tree =
      (.ofRun arguments last, final) := by
    unfold runConfig
    rw [hwidth]
    dsimp only
    rw [Trainer.run_bind, hmade]
    dsimp only
    rw [Trainer.run_bind, playEpisodes_of_plays hplays]
    rfl
  unfold program
  rw [hparse]
  dsimp only
  rw [Trainer.run_bind, hconfig]
  dsimp only
  rw [hrun, Exit.ofRun, hplot]
  rfl

/-- Before the first episode nothing is stored and no file is in the output folder. -/
theorem underway_start {config : Config Float} (hvalid : config.validate = .ok ())
    (hcold : config.loadModel = false) {width : UInt64} (hwidth : config.inputSize = some width)
    {tree : FileTree} (haccepts : AcceptsCheckpoints config tree)
    (hempty : ∀ trail, Inside config.outputPath trail → ¬tree.HasFile trail) :
    Underway config width.toNat 0 0 (Trainer.atStart config (Network.drawPredictor width.toNat
      (config.hiddenSizes.map UInt64.toNat) config.hiddenActivation (.ofSeed config.seed)).1)
      tree := by
  have hbuilt := Trainer.fromConfig_atStart (σ := FileTree) hvalid hcold hwidth
  obtain ⟨inputSize, hinputSize, hready⟩ := Trainer.ready_of_fromConfig hbuilt
  rw [hwidth] at hinputSize
  cases hinputSize
  refine ⟨hready, rfl, rfl, rfl, rfl, rfl, rfl, haccepts, fun trail hinside => ?_⟩
  refine iff_of_false (hempty trail hinside) ?_
  rintro ⟨due, _, hpos, hle, _⟩
  omega

/-- On an accepted configuration that tells the number of features and names no snapshot to start
from, with fewer epochs than a 32 bit count can hold, without a plot and with an output folder that
can be written and has no files yet, the program ends without an error. When the episodes have
observations, the first ones, as many as leave the memory short of a batch, have their steps skipped
and the next ones have theirs executed, one more than there are epochs if there are as many; empty
episodes have all theirs skipped. The files in the output folder are then the checkpoints of the
multiples of the interval up to the number of executed steps. -/
theorem program_trains {args : List String} {arguments : Arguments}
    (hparse : parse args = .ok arguments) (hplot : arguments.plot = false) {tree : FileTree}
    {config : Config Float}
    (hconfig : (Config.ofFile arguments.config : StateM FileTree _).run tree = (.ok config, tree))
    {width : UInt64} (hwidth : config.inputSize = some width) (hcold : config.loadModel = false)
    (hlimit : config.epochs.toNat < 2147483647) (haccepts : AcceptsCheckpoints config tree)
    (hempty : ∀ trail, Inside config.outputPath trail → ¬tree.HasFile trail) :
    ∃ trainer reports last tree',
      (Trainer.ofConfig config : StateM FileTree _).run tree = (.ok (.ok trainer), tree) ∧
      Plays width.toNat arguments.episodeLength.toNat arguments.episodes.toNat
        ⟨trainer, .ofSeed config.seed, []⟩ tree reports last tree' ∧
      (program args : StateM FileTree _).run tree = (⟨0, "", ""⟩, tree') ∧
      (0 < arguments.episodeLength.toNat → ∀ warmup,
        warmup = config.batchSize.toNat ⌈/⌉ arguments.episodeLength.toNat - 1 →
        reports.map StepReport.isExecuted =
          List.replicate (min arguments.episodes.toNat warmup) false ++
          List.replicate (min (config.epochs.toNat + 1) (arguments.episodes.toNat - warmup)) true) ∧
      (arguments.episodeLength.toNat = 0 → reports.map StepReport.isExecuted =
        List.replicate arguments.episodes.toNat false) ∧
      ∀ trail, Inside config.outputPath trail → (tree'.HasFile trail ↔
        ∃ due, config.saveInterval.toNat ∣ due ∧ 1 ≤ due ∧
          due ≤ reports.countP StepReport.isExecuted ∧
          trail = FileTree.trailOf config.outputPath ++ [s!"epoch_{due}.json"]) := by
  have hvalid := Config.validate_of_ofFile hconfig
  have hbatch : 0 < config.batchSize.toNat :=
    Nat.pos_of_ne_zero fun hzero => Config.batchSize_ne_zero hvalid (UInt64.toNat_inj.1 hzero)
  have hstart := underway_start hvalid hcold hwidth haccepts hempty
  have hmade := Trainer.ofConfig_eq_of_cold hvalid hcold hwidth tree
  generalize Trainer.atStart config _ = trainer at hstart hmade
  obtain ⟨skipped, hfew, henough, hwarmup, hidle⟩ :=
    exists_skipped hbatch arguments.episodeLength.toNat arguments.episodes.toNat
  obtain ⟨reports, last, final, hplays, hreports, hfiles⟩ :=
    plays_of_underway hlimit (Config.batchSize_le_memorySize hvalid) _ skipped
      ⟨trainer, .ofSeed config.seed, []⟩ hstart (Nat.zero_le _) hfew henough
  rw [Nat.sub_zero] at hreports hfiles
  have hexecuted : reports.countP StepReport.isExecuted =
      min (config.epochs.toNat + 1) (arguments.episodes.toNat - skipped) := by
    have hcount : (reports.map StepReport.isExecuted).countP id =
        reports.countP StepReport.isExecuted := List.countP_map
    rw [← hcount, hreports, List.countP_append, List.countP_replicate, List.countP_replicate]
    exact Nat.zero_add _
  refine ⟨trainer, reports, last, final, hmade, hplays,
    program_of_plays hparse hplot hconfig hwidth hmade hplays, ?_, ?_, ?_⟩
  · rintro hpos warmup rfl
    rw [hreports, hwarmup hpos]
  · intro hzero
    rw [hreports, hidle hzero, Nat.min_self, Nat.sub_self, Nat.min_zero, List.replicate_zero,
      List.append_nil]
  · intro trail hinside
    rw [hfiles trail hinside, hexecuted, Nat.zero_add]
    constructor
    · rintro ⟨due, hdvd, hpos, hle, htrail⟩
      exact ⟨due.toNat, hdvd, hpos, hle, htrail⟩
    · rintro ⟨due, hdvd, hpos, hle, htrail⟩
      have hword : due < 2 ^ 64 := by omega
      refine ⟨UInt64.ofNat due, ?_⟩
      rw [Trainer.checkpointTrail, checkpointName_ofNat hword, UInt64.toNat_ofNat_of_lt' hword]
      exact ⟨hdvd, hpos, hle, htrail⟩

/-- A configuration for observations of two features. -/
def smallText : String :=
  "\x7b\"training.batch_size\": 2, \"training.gamma\": 0.5, \"training.eps_start\": 0.9, " ++
  "\"training.eps_end\": 0.1, \"training.eps_decay\": 100, \"training.lr\": 0.01, " ++
  "\"training.tau\": 0.5, \"training.device\": \"cpu\", \"training.epochs\": 3, " ++
  "\"training.load_model\": false, \"training.reward_weight\": 0.5, " ++
  "\"training.save_interval\": 2, \"training.output_path\": \"checkpoints\", " ++
  "\"model.input_size\": 2\x7d"

/-- The settings of the text that a run of the program depends on. -/
theorem ofText_smallText : ∃ config, Config.ofText smallText = .ok config ∧
    config.batchSize = 2 ∧ config.epochs = 3 ∧ config.saveInterval = 2 ∧
    config.outputPath = ⟨"checkpoints"⟩ ∧ config.inputSize = some 2 ∧ config.loadModel = false := by
  have hchecked : (match Config.ofText smallText with
      | .ok config => decide (config.batchSize = 2 ∧ config.epochs = 3 ∧ config.saveInterval = 2 ∧
          config.outputPath = ⟨"checkpoints"⟩ ∧ config.inputSize = some 2 ∧
          config.loadModel = false)
      | .error _ => false) = true := by decide +kernel
  cases htext : Config.ofText smallText with
  | error cause =>
    rw [htext] at hchecked
    cases hchecked
  | ok config =>
    rw [htext] at hchecked
    exact ⟨config, rfl, of_decide_eq_true hchecked⟩

/-- A folder with the configuration. -/
def smallTree : FileTree := ⟨[(["config.json"], .file smallText)]⟩

/-- A folder can be made for its checkpoints. -/
theorem makeFolders_smallTree : smallTree.makeFolders ⟨"checkpoints"⟩ =
    (.ok (), ⟨[(["checkpoints"], .folder), (["config.json"], .file smallText)]⟩) := by
  have hmade : (smallTree.makeFolders ⟨"checkpoints"⟩).1.isOk = true := by decide +kernel
  have hnodes : (smallTree.makeFolders ⟨"checkpoints"⟩).2.nodes =
      [(["checkpoints"], .folder), (["config.json"], .file smallText)] := by decide +kernel
  generalize smallTree.makeFolders ⟨"checkpoints"⟩ = making at hmade hnodes
  obtain ⟨result, ⟨nodes⟩⟩ := making
  cases result with
  | error cause => cases hmade
  | ok =>
    cases hnodes
    rfl

theorem trailOf_checkpoints : FileTree.trailOf ⟨"checkpoints"⟩ = ["checkpoints"] := by
  decide +kernel

/-- Its checkpoints can be written. -/
theorem acceptsCheckpoints_smallTree {config : Config Float}
    (hfolder : config.outputPath = ⟨"checkpoints"⟩) : AcceptsCheckpoints config smallTree := by
  have hmade := makeFolders_smallTree
  rw [← hfolder] at hmade
  refine Trainer.acceptsCheckpoints_of_made (by rw [hmade]) ?_ ?_ fun epoch => ?_
  · rw [hfolder]
    decide
  · rw [hfolder]
    decide
  · rw [hmade, Trainer.checkpointTrail, hfolder, trailOf_checkpoints]
    simp [FileTree.node?]

/-- It has no checkpoints yet. -/
theorem not_hasFile_smallTree {trail : Trail} (h : Inside ⟨"checkpoints"⟩ trail) :
    ¬smallTree.HasFile trail := by
  obtain ⟨name, rest, _, rfl⟩ := h
  rw [trailOf_checkpoints]
  rintro ⟨content, hfile⟩
  simp [FileTree.node?, smallTree] at hfile

/-- Ten episodes of one observation. -/
def smallArguments : List String := ["-c", "config.json", "-n", "10", "--episode_length", "1"]

theorem parse_smallArguments :
    parse smallArguments = .ok ⟨⟨"config.json"⟩, 10, 1, false, 20⟩ := by
  have hparsed : (parse smallArguments).toOption = some ⟨⟨"config.json"⟩, 10, 1, false, 20⟩ := by
    decide +kernel
  cases hparse : parse smallArguments with
  | error usage =>
    rw [hparse] at hparsed
    cases hparsed
  | ok arguments =>
    rw [hparse] at hparsed
    exact congrArg Except.ok (Option.some.inj hparsed)

/-- With batches of two transitions and episodes of one observation, the first of ten episodes is
skipped and the next four are trained on; the checkpoints of the second and the fourth epoch are
written. -/
theorem program_trains_smallTree :
    ∃ tree', (program smallArguments : StateM FileTree _).run smallTree =
        (⟨0, "", ""⟩, tree') ∧
      tree'.HasFile ["checkpoints", "epoch_2.json"] ∧
      tree'.HasFile ["checkpoints", "epoch_4.json"] ∧
      ¬tree'.HasFile ["checkpoints", "epoch_6.json"] := by
  obtain ⟨config, htext, hbatch, hepochs, hinterval, hfolder, hwidth, hcold⟩ := ofText_smallText
  have hconfig : (Config.ofFile ⟨"config.json"⟩ : StateM FileTree _).run smallTree =
      (.ok config, smallTree) := by
    have hread : (smallTree.read ⟨"config.json"⟩).toOption = some smallText := by decide +kernel
    rw [Config.run_ofFile, ← htext]
    cases hfile : smallTree.read ⟨"config.json"⟩ with
    | error fault =>
      rw [hfile] at hread
      cases hread
    | ok text =>
      rw [hfile] at hread
      cases hread
      rfl
  obtain ⟨_, reports, _, tree', _, _, hrun, htrained, _, hfiles⟩ :=
    program_trains parse_smallArguments rfl hconfig hwidth hcold (by rw [hepochs]; decide)
      (acceptsCheckpoints_smallTree hfolder) (fun trail hinside => by
        rw [hfolder] at hinside
        exact not_hasFile_smallTree hinside)
  have hcount : reports.countP StepReport.isExecuted = 4 := by
    have hpattern := htrained (by decide) _ rfl
    have hmap : (reports.map StepReport.isExecuted).countP id =
        reports.countP StepReport.isExecuted := List.countP_map
    rw [← hmap, hpattern, hbatch, hepochs]
    decide
  have hfile : ∀ name, name ≠ "/" → (tree'.HasFile ["checkpoints", name] ↔
      ∃ due, 2 ∣ due ∧ 1 ≤ due ∧ due ≤ 4 ∧ name = s!"epoch_{due}.json") := by
    intro name hname
    have hinside : Inside config.outputPath ["checkpoints", name] := by
      rw [hfolder]
      exact ⟨name, [], hname, by rw [trailOf_checkpoints]; rfl⟩
    rw [hfiles _ hinside, hcount, hfolder, trailOf_checkpoints, hinterval]
    simp
  refine ⟨tree', hrun, (hfile _ (by decide)).2 ⟨2, by decide, by decide, by decide, rfl⟩,
    (hfile _ (by decide)).2 ⟨4, by decide, by decide, by decide, rfl⟩, fun hsix => ?_⟩
  obtain ⟨due, hdvd, hpos, hle, hname⟩ := (hfile _ (by decide)).1 hsix
  obtain rfl | rfl : due = 2 ∨ due = 4 := by omega
  · exact absurd hname (by decide)
  · exact absurd hname (by decide)

end CommandLine

end DeferredReward
