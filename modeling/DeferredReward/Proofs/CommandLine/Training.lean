import DeferredReward.Proofs.CommandLine.Episodes
import DeferredReward.Proofs.Config
import DeferredReward.Proofs.Trainer.Horizon
import DeferredReward.Proofs.Trainer.Saving

/-!
# Training on episodes

The first episodes only fill the memory; then every episode is followed by an
executed step, until there have been enough episodes or the last epoch is past.
A writable output folder gets the checkpoints of the epochs that are multiples
of the interval, and nothing else.

Main statements: `playEpisodes_of_plays`, `plays_of_underway`.
-/

namespace DeferredReward

open FileTree (Inside)

/-- Whether the step was executed. -/
def StepReport.isExecuted {α : Type} : StepReport α → Bool
  | skipped .. => false
  | executed .. => true

namespace Trainer

variable {t t' : Trainer (Network Float) Float} {tree : FileTree}

/-- An executed step adds the file of its checkpoint when one is due, and nothing else, where the
output folder can be written. -/
theorem optimize_of_learn {epoch : UInt64} {loss : Float}
    (hlearn : t.learn = .ok (.ok (.executed epoch loss), t'))
    (hinterval : t'.config.saveInterval ≠ 0) (h : AcceptsCheckpoints t'.config tree) :
    ∃ checkpoint tree', (t.optimize : StateM FileTree _).run tree =
        (.ok (.ok (.executed epoch loss checkpoint), t'), tree') ∧
      AcceptsCheckpoints t'.config tree' ∧
      ∀ trail, tree'.HasFile trail ↔ tree.HasFile trail ∨
        (t'.config.saveInterval.toNat ∣ t'.epoch.toNat ∧
          trail = checkpointTrail t'.config t'.epoch) := by
  have hdue := checkpointDue_eq_ok hinterval
  have hiff := due_iff hdue
  generalize (t'.epoch % t'.config.saveInterval == 0) = due at hdue hiff
  cases due with
  | false =>
    have hnot : ¬t'.config.saveInterval.toNat ∣ t'.epoch.toNat := fun hdvd => by cases hiff.2 hdvd
    refine ⟨none, tree, ?_, h, fun trail => ?_⟩
    · unfold optimize
      rw [hlearn]
      dsimp only
      rw [hdue]
      rfl
    · simp [hnot]
  | true =>
    obtain ⟨tree', hsave, haccepts, hfiles⟩ := save_of_accepts h
    refine ⟨_, tree', optimize_of_due hlearn hdue hsave, haccepts, fun trail => ?_⟩
    rw [hfiles trail]
    simp [hiff.1 rfl]

end Trainer

namespace CommandLine

open Trainer (Ready AcceptsCheckpoints checkpointTrail)

/-- The files in the output folder are the checkpoints of the epochs up to one that are due. -/
def HoldsCheckpoints (config : Config Float) (epoch : ℕ) (tree : FileTree) : Prop :=
  ∀ trail, Inside config.outputPath trail → (tree.HasFile trail ↔
    ∃ due : UInt64, config.saveInterval.toNat ∣ due.toNat ∧ 1 ≤ due.toNat ∧ due.toNat ≤ epoch ∧
      trail = checkpointTrail config due)

/-- One more epoch adds its checkpoint when it is due. -/
theorem HoldsCheckpoints.next {config : Config Float} {epoch : ℕ} {tree tree' : FileTree}
    (h : HoldsCheckpoints config epoch tree) {reached : UInt64}
    (hreached : reached.toNat = epoch + 1)
    (hfiles : ∀ trail, tree'.HasFile trail ↔ tree.HasFile trail ∨
      (config.saveInterval.toNat ∣ reached.toNat ∧ trail = checkpointTrail config reached)) :
    HoldsCheckpoints config (epoch + 1) tree' := by
  intro trail hinside
  rw [hfiles trail, h trail hinside]
  constructor
  · rintro (⟨due, hdvd, hpos, hle, htrail⟩ | ⟨hdvd, htrail⟩)
    · exact ⟨due, hdvd, hpos, by omega, htrail⟩
    · exact ⟨reached, hdvd, by omega, by omega, htrail⟩
  · rintro ⟨due, hdvd, hpos, hle, htrail⟩
    by_cases hlast : due = reached
    · subst hlast
      exact .inr ⟨hdvd, htrail⟩
    · have hne : due.toNat ≠ reached.toNat := fun heq => hlast (UInt64.toNat_inj.1 heq)
      exact .inl ⟨due, hdvd, hpos, by omega, htrail⟩

/-- Between two episodes: how many transitions the memory holds, which epoch has been reached, and
that the output folder can be written and has the checkpoints that were due. -/
structure Underway (config : Config Float) (width size epoch : ℕ)
    (t : Trainer (Network Float) Float) (tree : FileTree) : Prop where
  ready : Ready width t
  config_eq : t.config = config
  counted : t.optimizer.steps.toInt = t.epoch.toNat
  epoch_eq : t.epoch.toNat = epoch
  capacity : t.memory.capacity = config.memorySize.toNat
  size_eq : t.memory.size = size
  staged : t.staging.size = 0
  accepts : AcceptsCheckpoints config tree
  files : HoldsCheckpoints config epoch tree

namespace Underway

variable {config : Config Float} {width size epoch : ℕ} {t t' : Trainer (Network Float) Float}
  {tree : FileTree}

/-- An episode fills the memory as far as there is room. -/
theorem played {length : ℕ} (h : Underway config width size epoch t tree)
    (hplayed : Played width length t t') :
    Underway config width (min (size + length) config.memorySize.toNat) epoch t' tree := by
  have hconfig := congrArg Trainer.config hplayed.eq
  have hoptimizer := congrArg Trainer.optimizer hplayed.eq
  have hepoch := congrArg Trainer.epoch hplayed.eq
  refine ⟨hplayed.ready, hconfig.trans h.config_eq, ?_, ?_, hplayed.capacity.trans h.capacity, ?_,
    hplayed.staged, h.accepts, h.files⟩
  · rw [hoptimizer, hepoch]
    exact h.counted
  · rw [hepoch]
    exact h.epoch_eq
  · rw [hplayed.size, h.size_eq, h.capacity]

/-- With fewer transitions than a batch the step is skipped. -/
theorem skips (h : Underway config width size epoch t tree) (hfew : size < config.batchSize.toNat) :
    (t.optimize : StateM FileTree _).run tree =
      (.ok (.ok (.skipped size config.batchSize.toNat), t), tree) := by
  have hless : t.memory.size < t.config.batchSize.toNat := by
    rw [h.size_eq, h.config_eq]
    exact hfew
  have hlearn : t.learn = .ok (.ok (.skipped size config.batchSize.toNat), t) := by
    unfold Trainer.learn
    dsimp only
    rw [if_pos hless, h.size_eq, h.config_eq]
    rfl
  unfold Trainer.optimize
  rw [hlearn]
  rfl

/-- With enough transitions the step is executed, reaches the next epoch and saves the checkpoint
that is due in it. -/
theorem executes (h : Underway config width size epoch t tree)
    (henough : config.batchSize.toNat ≤ size) (hlimit : epoch < 2147483647) :
    ∃ report t' tree', (t.optimize : StateM FileTree _).run tree = (.ok (.ok report, t'), tree') ∧
      report.isExecuted = true ∧ Underway config width size (epoch + 1) t' tree' := by
  have hbound : Arithmetic.atMost (-Trainer.gradientBound : Float) Trainer.gradientBound =
      true := by decide
  have hcount : t.optimizer.steps ≠ Int32.maxValue := by
    intro hmax
    have hcounted := h.counted
    rw [hmax, Int32.toInt_maxValue, h.epoch_eq] at hcounted
    omega
  obtain ⟨progress, t', hlearn⟩ := Trainer.learn_of_ready hbound h.ready hcount
  obtain ⟨hfew, _, _⟩ | ⟨_, _, hfailed, _⟩ |
      ⟨_, gradients, moved, loss, hclamped, hdescends, rfl, hprogress⟩ :=
    Trainer.learn_outcome h.ready.form hlearn
  · rw [h.size_eq, h.config_eq] at hfew
    omega
  · cases hfailed
  · cases hprogress
    have hadvances := hdescends.advances hclamped
    obtain ⟨hcounted, hepoch⟩ := hadvances.toNat_epoch h.counted
    have hconfig : moved.config = config := hdescends.config.trans h.config_eq
    have hready : Ready width { moved with epoch := moved.epoch + 1 } :=
      { Trainer.ready_of_descends h.ready hdescends with }
    have haccepts : AcceptsCheckpoints { moved with epoch := moved.epoch + 1 }.config tree := by
      rw [hconfig]
      exact h.accepts
    obtain ⟨checkpoint, tree', hstep, haccepts', hfiles⟩ :=
      Trainer.optimize_of_learn hlearn hready.interval haccepts
    rw [hconfig] at haccepts' hfiles
    refine ⟨_, _, tree', hstep, rfl, hready, hconfig, hcounted, ?_, ?_, ?_, ?_, haccepts', ?_⟩
    · rw [hepoch, h.epoch_eq]
    · exact hdescends.capacity.trans h.capacity
    · have hsize := congrArg List.length hdescends.contents
      rw [t.memory.length_toList, moved.memory.length_toList, h.size_eq] at hsize
      exact hsize
    · rw [hdescends.staging]
      exact h.staged
    · exact h.files.next (hepoch.trans (congrArg (· + 1) h.epoch_eq)) hfiles

/-- Training is over once the last epoch is past. -/
theorem isOver_eq (h : Underway config width size epoch t tree) :
    t.isOver = decide (config.epochs.toNat < epoch) := by
  unfold Trainer.isOver
  rw [h.config_eq, ← h.epoch_eq]
  exact decide_eq_decide.2 UInt64.lt_iff_toNat_lt

end Underway

/-- The run with what a step has reported. -/
def Run.after {α : Type} (run : Run α) (report : StepReport α) (trainer : Trainer (Network α) α) :
    Run α :=
  let losses := match report with
    | .executed _ loss _ => loss :: run.losses
    | .skipped _ _ => run.losses
  { run with trainer, losses }

/-- Episodes with their reports: those that are played of a number allowed. -/
inductive Plays {α σ : Type} [Analysis α] [SnapshotStore (StateM σ) α] (width length : ℕ) :
    ℕ → Run α → σ → List (StepReport α) → Run α → σ → Prop where
  /-- There have been enough episodes. -/
  | enough {run : Run α} {store : σ} : Plays width length 0 run store [] run store
  /-- After the step of this episode training is over. -/
  | ended {allowed : ℕ} {run played : Run α} {store store' : σ} {report : StepReport α}
      {trainer : Trainer (Network α) α} (hplay : playEpisode width length run = .ok (.ok played))
      (hstep : (played.trainer.optimize : StateM σ _).run store =
        (.ok (.ok report, trainer), store')) (hover : trainer.isOver = true) :
      Plays width length (allowed + 1) run store [report] (played.after report trainer) store'
  /-- After the step of this episode the others follow. -/
  | next {allowed : ℕ} {run played last : Run α} {store store' final : σ} {report : StepReport α}
      {reports : List (StepReport α)} {trainer : Trainer (Network α) α}
      (hplay : playEpisode width length run = .ok (.ok played))
      (hstep : (played.trainer.optimize : StateM σ _).run store =
        (.ok (.ok report, trainer), store')) (hgoes : trainer.isOver = false)
      (rest : Plays width length allowed (played.after report trainer) store' reports last final) :
      Plays width length (allowed + 1) run store (report :: reports) last final

/-- The program plays the episodes. -/
theorem playEpisodes_of_plays {α σ : Type} [Analysis α] [SnapshotStore (StateM σ) α]
    {width length allowed : ℕ} {run last : Run α} {store final : σ} {reports : List (StepReport α)}
    (h : Plays width length allowed run store reports last final) :
    (playEpisodes width length allowed run : StateM σ _).run store = (.ok (.ok last), final) := by
  induction h with
  | enough => rfl
  | ended hplay hstep hover =>
    rw [playEpisodes, hplay]
    dsimp only
    rw [Trainer.run_bind, hstep]
    dsimp only
    rw [hover]
    rfl
  | next hplay hstep hgoes _ ih =>
    rw [playEpisodes, hplay]
    dsimp only
    rw [Trainer.run_bind, hstep]
    dsimp only
    rw [hgoes]
    exact ih

/-- Once an episode makes up a batch, each of the episodes allowed has an executed step, until one
step more has been executed than there are epochs left. -/
theorem plays_of_full {config : Config Float} {width length : ℕ}
    (hlimit : config.epochs.toNat < 2147483647)
    (hroom : config.batchSize.toNat ≤ config.memorySize.toNat) (allowed : ℕ) {size epoch : ℕ}
    (run : Run Float) {tree : FileTree} (h : Underway config width size epoch run.trainer tree)
    (hleft : epoch ≤ config.epochs.toNat) (henough : config.batchSize.toNat ≤ size + length) :
    ∃ reports last tree', Plays width length allowed run tree reports last tree' ∧
      reports.map StepReport.isExecuted =
        List.replicate (min (config.epochs.toNat + 1 - epoch) allowed) true ∧
      HoldsCheckpoints config (epoch + min (config.epochs.toNat + 1 - epoch) allowed) tree' := by
  induction allowed generalizing size epoch run tree with
  | zero =>
    refine ⟨[], run, tree, .enough, ?_, ?_⟩
    · rw [Nat.min_zero]
      rfl
    · rw [Nat.min_zero]
      exact h.files
  | succ allowed ih =>
    obtain ⟨played, hplay, hplayed⟩ := playEpisode_of_ready length h.ready h.staged
    -- No transition of a batch is lost when the memory is full.
    have hfull : config.batchSize.toNat ≤ min (size + length) config.memorySize.toNat :=
      Nat.le_min.2 ⟨henough, hroom⟩
    obtain ⟨report, trainer, tree', hstep, hexecuted, hunderway⟩ :=
      (h.played hplayed).executes hfull (by omega)
    have hover := hunderway.isOver_eq
    by_cases hlast : epoch = config.epochs.toNat
    · -- The step of the last epoch is the last one.
      have hone : min (config.epochs.toNat + 1 - epoch) (allowed + 1) = 1 := by omega
      rw [decide_eq_true (by omega)] at hover
      rw [hone]
      exact ⟨[report], played.after report trainer, tree', .ended hplay hstep hover,
        congrArg (fun executed => [executed]) hexecuted, hunderway.files⟩
    · rw [decide_eq_false (by omega)] at hover
      obtain ⟨reports, last, final, hplays, hreports, hfiles⟩ :=
        ih (played.after report trainer) hunderway (by omega) (by omega)
      have hcount : min (config.epochs.toNat + 1 - epoch) (allowed + 1) =
          min (config.epochs.toNat + 1 - (epoch + 1)) allowed + 1 := by omega
      rw [hcount]
      refine ⟨report :: reports, last, final, .next hplay hstep hover hplays, ?_, ?_⟩
      · rw [List.map_cons, hreports, hexecuted]
        rfl
      · rw [← Nat.add_assoc, Nat.add_right_comm]
        exact hfiles

/-- Of the episodes allowed, as many are skipped as leave the memory short of a batch; each of the
others has an executed step, until one step more has been executed than there are epochs left. -/
theorem plays_of_underway {config : Config Float} {width length : ℕ}
    (hlimit : config.epochs.toNat < 2147483647)
    (hroom : config.batchSize.toNat ≤ config.memorySize.toNat) (allowed skipped : ℕ)
    {size epoch : ℕ} (run : Run Float) {tree : FileTree}
    (h : Underway config width size epoch run.trainer tree) (hleft : epoch ≤ config.epochs.toNat)
    (hfew : ∀ count, 1 ≤ count → count ≤ min allowed skipped →
      size + length * count < config.batchSize.toNat)
    (henough : skipped < allowed → config.batchSize.toNat ≤ size + length * (skipped + 1)) :
    ∃ reports last tree', Plays width length allowed run tree reports last tree' ∧
      reports.map StepReport.isExecuted = List.replicate (min allowed skipped) false ++
        List.replicate (min (config.epochs.toNat + 1 - epoch) (allowed - skipped)) true ∧
      HoldsCheckpoints config
        (epoch + min (config.epochs.toNat + 1 - epoch) (allowed - skipped)) tree' := by
  -- By induction on the number of episodes allowed, of which the first is played.
  induction allowed generalizing skipped size run tree with
  | zero =>
    refine ⟨[], run, tree, .enough, ?_, ?_⟩
    · simp
    · simpa using h.files
  | succ allowed ih =>
    cases skipped with
    | zero =>
      have hfirst := henough (Nat.succ_pos allowed)
      rw [Nat.zero_add, Nat.mul_one] at hfirst
      obtain ⟨reports, last, tree', hplays, hreports, hfiles⟩ :=
        plays_of_full hlimit hroom (allowed + 1) run h hleft hfirst
      exact ⟨reports, last, tree', hplays, hreports, hfiles⟩
    | succ skipped =>
      obtain ⟨played, hplay, hplayed⟩ := playEpisode_of_ready length h.ready h.staged
      have hfilled := h.played hplayed
      have hshort : size + length < config.batchSize.toNat := by
        have hfirst := hfew 1 (Nat.le_refl 1) (by omega)
        omega
      have hsize : min (size + length) config.memorySize.toNat = size + length := by omega
      rw [hsize] at hfilled
      have hstep := hfilled.skips hshort
      have hover := hfilled.isOver_eq
      rw [decide_eq_false (by omega)] at hover
      obtain ⟨reports, last, final, hplays, hreports, hfiles⟩ :=
        ih skipped (played.after (.skipped (size + length) config.batchSize.toNat)
          played.trainer) hfilled
          (fun count hpos hle => by
            have hlater := hfew (count + 1) (by omega) (by omega)
            rw [Nat.mul_add, Nat.mul_one] at hlater
            omega)
          (fun hless => by
            have hlater := henough (by omega)
            rw [Nat.mul_add, Nat.mul_one] at hlater
            omega)
      have hcount : allowed + 1 - (skipped + 1) = allowed - skipped := by omega
      have hskips : min (allowed + 1) (skipped + 1) = min allowed skipped + 1 := by omega
      refine ⟨_, last, final, .next hplay hstep hover hplays, ?_, ?_⟩
      · rw [List.map_cons, hreports, hcount, hskips]
        rfl
      · rw [hcount]
        exact hfiles

end CommandLine

end DeferredReward
