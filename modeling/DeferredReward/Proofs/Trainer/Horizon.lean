import DeferredReward.Proofs.Trainer.Milestones
import DeferredReward.Proofs.Trainer.Readiness

/-!
# How long training goes on

Epochs count executed steps, and the report of an executed step tells the epoch
that it has reached and whether a checkpoint was due in it. A memory that can
fill a batch can do so ever after, since it forgets only what it replaces, so
that a run has no skipped step after one that was not skipped. Training until it
is over therefore ends, after one step more than epochs were left, and it stays
over.

Main statements: `reports_of_run`, `not_skipped_after`, `loop_iff`,
`horizon_of_run`.
-/

namespace DeferredReward

/-- Whether the outcome is that of a skipped step. -/
def Progress.isSkipped {α : Type} : Except StepError (Progress α) → Bool
  | .ok (.skipped ..) => true
  | _ => false

/-- Whether the answer is that of a skipped step. -/
def Answer.isSkipped {α : Type} : Answer α → Bool
  | optimized (.ok (.skipped ..)) => true
  | _ => false

theorem Answer.isSkipped_optimized {α : Type} (answer : Except StepError (StepReport α)) :
    (optimized answer).isSkipped = Progress.isSkipped (answer.map StepReport.progress) := by
  rcases answer with _ | _ | _ <;> rfl

/-- The epoch and the checkpoint that the answer of an executed step tells. -/
def Answer.report? {α : Type} : Answer α → Option (UInt64 × Option Checkpoint)
  | optimized (.ok (.executed epoch _ checkpoint)) => some (epoch, checkpoint)
  | _ => none

theorem Answer.isSome_report? {α : Type} (answer : Answer α) :
    answer.report?.isSome = answer.isExecuted := by
  cases answer with
  | optimized answer => rcases answer with _ | _ | _ <;> rfl
  | predicted | staged | committed | saved | done => rfl

/-- The epochs and the checkpoints of the executed steps in order. -/
def History.reports {α : Type} (history : History α) : List (UInt64 × Option Checkpoint) :=
  history.filterMap fun entry => entry.2.report?

/-- Every executed step has a report. -/
theorem History.length_reports {α : Type} (history : History α) :
    history.reports.length = history.executed := by
  rw [reports, executed, List.length_filterMap_eq_countP]
  exact congrArg (history.countP ·) (funext fun entry => entry.2.isSome_report?)

theorem History.reports_append {α : Type} (history : History α) (op : Operation α)
    (answer : Answer α) :
    History.reports (history ++ [(op, answer)]) = history.reports ++ answer.report?.toList := by
  rw [reports, List.filterMap_append, reports]
  cases hreport : answer.report? <;> simp [hreport]

namespace Trainer

variable {α σ : Type} [Analysis α]

/-- No operation makes the memory smaller. -/
theorem size_le_of_performs {t t' : Trainer (Network α) α} {op : Operation α} {answer : Answer α}
    (hform : t.target.form = t.policy.form) (h : Performs t op answer t') :
    t.memory.size ≤ t'.memory.size := by
  cases h with
  | predict | refuse | revise | clear | save => exact Nat.le_refl _
  | stage h =>
    obtain ⟨staging, _, rfl⟩ := stage_eq_ok_iff.1 h
    exact Nat.le_refl _
  | commit => exact t.memory.size_le_size_pushAll t.staging.transitions.toList
  | push transition => exact t.memory.size_le_size_pushAll [transition]
  | optimize h =>
    obtain ⟨_, _, rfl⟩ | ⟨_, _, _, hsame⟩ | ⟨_, _, moved, _, hdescends, rfl, _⟩ :=
      learn_cases hform h
    · exact Nat.le_refl _
    · rw [← t.memory.length_toList, ← t'.memory.length_toList, hsame.contents]
    · have hsize := congrArg List.length hdescends.contents
      rw [t.memory.length_toList, moved.memory.length_toList] at hsize
      exact hsize.ge

/-- The answer is that of a skipped step exactly when it is one of a step without
enough transitions. -/
theorem isSkipped_iff {t t' : Trainer (Network α) α} {op : Operation α} {answer : Answer α}
    (hform : t.target.form = t.policy.form) (h : Performs t op answer t') :
    answer.isSkipped = true ↔ op = .optimize ∧ t.memory.size < t.config.batchSize.toNat := by
  cases h with
  | optimize h =>
    rw [Answer.isSkipped_optimized]
    obtain ⟨hfew, hskipped, _⟩ | ⟨henough, _, hfailed, _⟩ | ⟨henough, _, _, _, _, _, hexecuted⟩ :=
      learn_cases hform h
    · rw [hskipped]
      exact iff_of_true rfl ⟨rfl, hfew⟩
    · rw [hfailed]
      exact iff_of_false Bool.false_ne_true fun hfew => by omega
    · rw [hexecuted]
      exact iff_of_false Bool.false_ne_true fun hfew => by omega
  | predict | stage | refuse | revise | commit | clear | push | save =>
    exact iff_of_false Bool.false_ne_true fun hfew => nomatch hfew.1

/-- A checkpoint is due in the multiples of the interval. -/
theorem due_iff {β : Type} {t : Trainer (Network β) β} {due : Bool} (h : t.checkpointDue = .ok due) :
    due = true ↔ t.config.saveInterval.toNat ∣ t.epoch.toNat := by
  unfold checkpointDue at h
  split at h
  · cases h
  · cases h
    rw [beq_iff_eq, ← UInt64.toNat_inj, UInt64.toNat_mod, Nat.dvd_iff_mod_eq_zero]
    rfl

section Store

variable [SnapshotStore (StateM σ) α]

/-- The report of an executed step has a checkpoint exactly when one was due. -/
theorem due_of_optimize {t t' : Trainer (Network α) α} {epoch : UInt64} {loss : α}
    {checkpoint : Option Checkpoint} {store store' : σ}
    (h : (t.optimize : StateM σ _).run store =
      (.ok (.ok (.executed epoch loss checkpoint), t'), store')) :
    t'.checkpointDue = .ok checkpoint.isSome := by
  unfold optimize at h
  cases hlearn : t.learn with
  | error fault =>
    rw [hlearn] at h
    cases h
  | ok result =>
    rw [hlearn] at h
    obtain ⟨_ | _ | ⟨epoch, loss⟩, after⟩ := result
    · cases h
    · cases h
    · dsimp only at h
      cases hdue : after.checkpointDue with
      | error fault =>
        rw [hdue] at h
        cases h
      | ok due =>
        rw [hdue] at h
        cases due <;>
        · cases h
          exact hdue

/-- The report of an executed step tells the epoch reached and whether a
checkpoint was due in it. -/
theorem report_of_perform {t t' : Trainer (Network α) α} {op : Operation α} {answer : Answer α}
    {store store' : σ} (hform : t.target.form = t.policy.form)
    (h : (t.perform op : StateM σ _).run store = (.ok (answer, t'), store')) {epoch : UInt64}
    {checkpoint : Option Checkpoint} (hreport : answer.report? = some (epoch, checkpoint)) :
    epoch = t'.epoch ∧ t'.checkpointDue = .ok checkpoint.isSome := by
  have hperforms := performs_of_perform h
  cases hperforms with
  | optimize hlearn =>
    rename_i answer
    obtain _ | _ | ⟨reached, loss, made⟩ := answer
    · cases hreport
    · cases hreport
    · cases hreport
      constructor
      · obtain ⟨_, hskipped, _⟩ | ⟨_, _, hfailed, _⟩ | ⟨_, _, _, _, _, _, hexecuted⟩ :=
          learn_cases hform hlearn
        · cases hskipped
        · cases hfailed
        · cases hexecuted
          rfl
      · rw [perform, run_bind] at h
        cases hoptimize : (t.optimize : StateM σ _).run store with
        | mk result after =>
          rw [hoptimize] at h
          obtain _ | ⟨report, trained⟩ := result
          · cases h
          · cases h
            exact due_of_optimize hoptimize
  | predict | stage | refuse | revise | commit | clear | push | save => cases hreport

variable {config : Config α} {first t t' : Trainer (Network α) α} {history later : History α}

/-- The report that ends a run tells how many steps it has executed, and has a
checkpoint when the interval divides that number. -/
theorem report_of_last (hstarted : Started config first) {op : Operation α} {answer : Answer α}
    (hrun : Run σ first (history ++ [(op, answer)]) t) {epoch : UInt64}
    {checkpoint : Option Checkpoint} (hreport : answer.report? = some (epoch, checkpoint)) :
    epoch.toNat = history.executed + 1 ∧
      (checkpoint.isSome = true ↔ config.saveInterval.toNat ∣ history.executed + 1) := by
  obtain ⟨before, hbefore, store, store', hstep⟩ := hrun.last
  have hkin := kindred_of_run hstarted.form hbefore
  have hkin' := kindred_of_run hstarted.form hrun
  obtain ⟨rfl, hdue⟩ := report_of_perform hkin.form hstep hreport
  have hexecuted : answer.isExecuted = true := by
    rw [← answer.isSome_report?, hreport]
    rfl
  have hepoch : t.epoch.toNat = history.executed + 1 := by
    rw [epoch_of_run hstarted hrun, History.executed_append, hexecuted, if_pos rfl]
  have hiff := due_iff hdue
  rw [hkin'.config, hstarted.config_eq, hepoch] at hiff
  exact ⟨hepoch, hiff⟩

/-- The reports of a run tell one epoch after the other, with a checkpoint in
the multiples of the interval. -/
theorem reports_of_run (hstarted : Started config first) (hrun : Run σ first history t) {n : ℕ}
    {epoch : UInt64} {checkpoint : Option Checkpoint}
    (h : history.reports[n]? = some (epoch, checkpoint)) :
    epoch.toNat = n + 1 ∧ (checkpoint.isSome = true ↔ config.saveInterval.toNat ∣ n + 1) := by
  induction hrun with
  | start => cases h
  | @next history t t' op answer run hperform ih =>
    rw [History.reports_append] at h
    by_cases hold : n < history.reports.length
    · rw [List.getElem?_append_left hold] at h
      exact ih h
    · rw [List.getElem?_append_right (Nat.not_lt.1 hold)] at h
      cases hreport : answer.report? with
      | none =>
        rw [hreport] at h
        cases h
      | some report =>
        rw [hreport, Option.toList_some, List.getElem?_singleton] at h
        split at h
        · rename_i hlast
          cases h
          -- The report behind all the others is that of the last operation.
          have hlength := history.length_reports
          have hn : n = history.executed := by omega
          rw [hn]
          exact report_of_last hstarted (.next run hperform) hreport
        · cases h

/-- A run never makes the memory smaller. -/
theorem size_le_of_run (hform : t.target.form = t.policy.form) (hrun : Run σ t later t') :
    t.memory.size ≤ t'.memory.size := by
  have hboth := hrun.invariant
    (fun _ t' => Kindred t t' ∧ t.memory.size ≤ t'.memory.size)
    ⟨⟨rfl, rfl, hform, rfl⟩, Nat.le_refl _⟩ <| by
      intro _ between op answer t' ⟨hkin, hle⟩ hop
      have hstep := size_le_of_performs hkin.form hop
      exact ⟨kindred_of_performs hkin hop, hle.trans hstep⟩
  exact hboth.2

/-- With enough transitions at its start a run has no skipped step. -/
theorem not_skipped_of_enough (hform : t.target.form = t.policy.form)
    (henough : t.config.batchSize.toNat ≤ t.memory.size) (hrun : Run σ t later t') :
    ∀ entry ∈ later, entry.2.isSkipped = false := by
  rintro ⟨op, answer⟩ hentry
  obtain ⟨earlier, rest, rfl⟩ := List.append_of_mem hentry
  obtain ⟨before, after, hearlier, hperforms, _⟩ := hrun.through
  have hkin := kindred_of_run hform hearlier
  have hsize := size_le_of_run hform hearlier
  refine Bool.eq_false_iff.2 fun hskipped => ?_
  have hfew := ((isSkipped_iff hkin.form hperforms).1 hskipped).2
  rw [hkin.config] at hfew
  omega

/-- After a step that was not skipped a run has no skipped step. -/
theorem not_skipped_after (hform : first.target.form = first.policy.form) {answer : Answer α}
    (hrun : Run σ first (history ++ (.optimize, answer) :: later) t)
    (hanswer : answer.isSkipped = false) : ∀ entry ∈ later, entry.2.isSkipped = false := by
  obtain ⟨before, after, hhistory, hperforms, hafter⟩ := hrun.through
  have hkin := kindred_of_run hform hhistory
  have hkin' := kindred_of_performs hkin hperforms
  have hsize := size_le_of_performs hkin.form hperforms
  have henough : ¬before.memory.size < before.config.batchSize.toNat := fun hfew =>
    Bool.eq_false_iff.1 hanswer ((isSkipped_iff hkin.form hperforms).2 ⟨rfl, hfew⟩)
  refine not_skipped_of_enough hkin'.form ?_ hafter
  rw [hkin.config] at henough
  rw [hkin'.config]
  omega

/-- Once training is over it is over after every further run. -/
theorem isOver_of_run (hstarted : Started config first) (hrun : Run σ first history t)
    (hover : t.isOver = true) (hlater : Run σ t later t') : t'.isOver = true := by
  have hkin := kindred_of_run hstarted.form hrun
  have hkin' := kindred_of_run hkin.form hlater
  have hepoch := epoch_of_run hstarted hrun
  have hepoch' := epoch_of_run hstarted (hrun.trans hlater)
  have hcounts : History.executed (history ++ later) = history.executed + later.executed :=
    List.countP_append
  have hpast := UInt64.lt_iff_toNat_lt.1 (of_decide_eq_true hover)
  refine decide_eq_true (UInt64.lt_iff_toNat_lt.2 ?_)
  rw [hkin'.config]
  omega

/-- Training until it is over: so many steps, each with a report, that lead from
a trainer with its store to one for which training is over. -/
inductive Loop : Trainer (Network α) α → σ → ℕ → Trainer (Network α) α → σ → Prop where
  /-- Training is over. -/
  | stop {t : Trainer (Network α) α} {store : σ} (h : t.isOver = true) : Loop t store 0 t store
  /-- It is not, and a step is made first. -/
  | step {t t' last : Trainer (Network α) α} {store store' final : σ} {report : StepReport α}
      {count : ℕ} (h : t.isOver = false)
      (hstep : (t.optimize : StateM σ _).run store = (.ok (.ok report, t'), store'))
      (rest : Loop t' store' count last final) : Loop t store (count + 1) last final

/-- Training until it is over takes one number of steps only. -/
theorem Loop.unique {last last' : Trainer (Network α) α} {store final final' : σ} {count count' : ℕ}
    (h : Loop t store count last final) (h' : Loop t store count' last' final') :
    count = count' := by
  induction h generalizing count' with
  | stop hover =>
    cases h' with
    | stop => rfl
    | step hgoes => cases hover.symm.trans hgoes
  | step hgoes hstep _ ih =>
    cases h' with
    | stop hover => cases hover.symm.trans hgoes
    | step _ hstep' rest' =>
      cases hstep.symm.trans hstep'
      exact congrArg (· + 1) (ih rest')

/-- The trainer is ready for a step that is executed. -/
structure Supplied (width : ℕ) (t : Trainer (Network α) α) : Prop where
  ready : Ready width t
  enough : t.config.batchSize.toNat ≤ t.memory.size
  counted : t.optimizer.steps.toInt = t.epoch.toNat

/-- A supplied trainer makes a step that reaches the next epoch and leaves it supplied. -/
theorem Supplied.optimize {width : ℕ}
    (hbound : Arithmetic.atMost (-gradientBound : α) gradientBound = true) (h : Supplied width t)
    (hlimit : t.epoch.toNat < 2147483647) (store : σ) :
    ∃ report t' store', (t.optimize : StateM σ _).run store = (.ok (.ok report, t'), store') ∧
      Supplied width t' ∧ t'.config = t.config ∧ t'.epoch.toNat = t.epoch.toNat + 1 := by
  have hcount : t.optimizer.steps ≠ Int32.maxValue := by
    intro hmax
    have hcounted := h.counted
    rw [hmax, Int32.toInt_maxValue] at hcounted
    omega
  obtain ⟨report, t', store', hstep, hexecuted⟩ :=
    executed_of_ready hbound h.ready hcount h.enough store
  have hperforms : Performs t .optimize (.optimized (.ok report)) t' :=
    .optimize (learn_of_optimize hstep)
  have hkin := kindred_of_performs ⟨rfl, rfl, h.ready.form, rfl⟩ hperforms
  have hsize := size_le_of_performs h.ready.form hperforms
  obtain ⟨hidle, _⟩ | ⟨_, _, hadvances⟩ := learning_cases h.ready.form hperforms
  · rw [hexecuted] at hidle
    cases hidle
  · obtain ⟨hcounted, hepoch⟩ := hadvances.toNat_epoch h.counted
    have henough : t'.config.batchSize.toNat ≤ t'.memory.size := by
      rw [hkin.config]
      exact h.enough.trans hsize
    have hpushes : (Operation.optimize : Operation α).Pushes width := trivial
    exact ⟨report, t', store', hstep, ⟨ready_of_performs h.ready hpushes hperforms, henough,
      hcounted⟩, hkin.config, hepoch⟩

/-- A supplied trainer trains until it is over. -/
theorem exists_loop {width : ℕ}
    (hbound : Arithmetic.atMost (-gradientBound : α) gradientBound = true) (h : Supplied width t)
    (hlimit : t.config.epochs.toNat < 2147483647) {count : ℕ}
    (hcount : t.epoch.toNat + count = t.config.epochs.toNat + 1) (store : σ) :
    ∃ last final, Loop t store count last final := by
  -- By induction on the number of epochs left, which every step makes smaller by one.
  induction count generalizing t store with
  | zero =>
    have hpast : t.config.epochs.toNat < t.epoch.toNat := by omega
    exact ⟨t, store, .stop (decide_eq_true (UInt64.lt_iff_toNat_lt.2 hpast))⟩
  | succ count ih =>
    have hleft : ¬t.config.epochs.toNat < t.epoch.toNat := by omega
    obtain ⟨report, t', store', hstep, hsupplied, hconfig, hepoch⟩ :=
      h.optimize hbound (by omega) store
    obtain ⟨last, final, hrest⟩ :=
      ih hsupplied (by rw [hconfig]; exact hlimit) (by rw [hconfig]; omega) store'
    have hgoes : t.isOver = false := decide_eq_false (UInt64.lt_iff_toNat_lt.not.2 hleft)
    exact ⟨last, final, .step hgoes hstep hrest⟩

/-- Up to its last epoch a supplied trainer trains until it is over in one step
more than epochs are left, and in no other number of steps. -/
theorem loop_iff {width : ℕ}
    (hbound : Arithmetic.atMost (-gradientBound : α) gradientBound = true) (h : Supplied width t)
    (hlimit : t.config.epochs.toNat < 2147483647) (hleft : t.epoch.toNat ≤ t.config.epochs.toNat)
    (store : σ) (count : ℕ) :
    (∃ last final, Loop t store count last final) ↔
      count = t.config.epochs.toNat + 1 - t.epoch.toNat := by
  obtain ⟨last, final, hloop⟩ := exists_loop hbound h hlimit
    (Nat.add_sub_of_le (Nat.le_succ_of_le hleft)) store
  constructor
  · rintro ⟨last', final', hloop'⟩
    exact hloop'.unique hloop
  · rintro rfl
    exact ⟨last, final, hloop⟩

end Store

/-- After any run of a trainer of a configuration alone the epoch is the number of
executed steps; their reports tell one epoch after the other, with a checkpoint
in the multiples of the interval. Enough transitions stay enough, and no step is
skipped after one that was not. With enough of them, when only observations of
the configured width were pushed, training until it is over takes one step more
than epochs are left, whatever becomes of the files. Training stays over. -/
theorem horizon_of_run [SnapshotStore (StateM σ) Float] {config : Config Float}
    {first t : Trainer (Network Float) Float} {history : History Float}
    (hbuilt : FromConfig σ config first) (hrun : Run σ first history t) :
    (t.epoch.toNat = history.executed ∧ history.reports.length = history.executed ∧
      ∀ n epoch checkpoint, history.reports[n]? = some (epoch, checkpoint) →
        epoch.toNat = n + 1 ∧
          (checkpoint.isSome = true ↔ config.saveInterval.toNat ∣ n + 1)) ∧
    (config.batchSize.toNat ≤ t.memory.size → ∀ later t', Run σ t later t' →
      config.batchSize.toNat ≤ t'.memory.size) ∧
    (∀ before answer after, history = before ++ (.optimize, answer) :: after →
      answer.isSkipped = false → ∀ entry ∈ after, entry.2.isSkipped = false) ∧
    (∃ inputSize, config.inputSize = some inputSize ∧ (config.epochs.toNat < 2147483647 →
      (∀ entry ∈ history, entry.1.Pushes inputSize.toNat) →
      config.batchSize.toNat ≤ t.memory.size → t.epoch.toNat ≤ config.epochs.toNat →
      ∀ (store : σ) (count : ℕ), (∃ last final, Loop t store count last final) ↔
        count = config.epochs.toNat + 1 - t.epoch.toNat)) ∧
    (t.isOver = true → ∀ later t', Run σ t later t' → t'.isOver = true) := by
  obtain ⟨inputSize, hinputSize, hready⟩ := ready_of_fromConfig hbuilt
  have hstarted := (started_of_fromConfig hbuilt).1
  have hkin := kindred_of_run hstarted.form hrun
  have hconfig : t.config = config := hkin.config.trans hstarted.config_eq
  refine ⟨⟨epoch_of_run hstarted hrun, history.length_reports, ?_⟩, ?_, ?_,
    ⟨inputSize, hinputSize, ?_⟩, ?_⟩
  · intro n epoch checkpoint hreport
    exact reports_of_run hstarted hrun hreport
  · intro henough later t' hlater
    exact henough.trans (size_le_of_run hkin.form hlater)
  · rintro before answer after rfl hanswer
    exact not_skipped_after hstarted.form hrun hanswer
  · intro hlimit hpushes henough hleft store count
    have hbound : Arithmetic.atMost (-gradientBound : Float) gradientBound = true := by decide
    rw [← hconfig] at hlimit henough hleft ⊢
    exact loop_iff hbound ⟨ready_of_run hready hrun hpushes, henough,
      steps_eq_epoch hstarted hrun⟩ hlimit hleft store count
  · intro hover later t' hlater
    exact isOver_of_run hstarted hrun hover hlater

/-- With ten epochs and one observation in the memory, the predictor of two
features is trained in eleven steps. -/
theorem horizon_of_run_singleTrainer :
    Run FileTree singleTrainer [(.push pairTransition, .done)]
        (singleTrainer.push pairTransition) ∧
      ∀ tree : FileTree, ∃ last final, Loop (singleTrainer.push pairTransition) tree 11 last final := by
  have hbuilt : FromConfig FileTree singleConfig singleTrainer :=
    fromConfig_atStart validate_singleConfig rfl rfl
  have hrun : Run FileTree singleTrainer [(.push pairTransition, .done)]
      (singleTrainer.push pairTransition) := .next .start ⟨.empty, .empty, rfl⟩
  obtain ⟨_, _, _, ⟨inputSize, hinputSize, hloop⟩, _⟩ := horizon_of_run hbuilt hrun
  cases hinputSize
  have hpushes : ∀ entry ∈ [((.push pairTransition, .done) : Operation Float × Answer Float)],
      entry.1.Pushes (2 : UInt64).toNat := by
    intro entry hentry
    rw [List.mem_singleton.1 hentry]
    rfl
  refine ⟨hrun, fun tree => (hloop (by decide) hpushes (by decide) (by decide) tree 11).2 ?_⟩
  decide

end Trainer

end DeferredReward
