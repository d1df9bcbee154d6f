import DeferredReward.Proofs.StagingArea
import DeferredReward.Proofs.Trainer.Batches
import DeferredReward.Proofs.Trainer.Start

/-!
# Predictor trainers never fail

A trainer that was built from a configuration stays ready: its networks are
predictors of one form, everything staged or stored has the width that they
take, and the moments of the optimizer have the shapes of the parameters. A
ready trainer answers every operation; no training step fails, and only
observations of another width are refused.

Main statements: `learn_of_ready`, `ready_of_performs`, `executed_of_ready`,
`perform_answered`.
-/

namespace DeferredReward

/-- The operation does not push an observation of another width. -/
def Operation.Pushes {α : Type} (width : ℕ) : Operation α → Prop
  | .push transition => transition.features.size = width
  | _ => True

/-- The operation has got the answer that a trainer of that width owes it: a
prediction or a place for exactly the observations of its width, and for a
training step a report and no error. -/
def Operation.Answered {α : Type} (width : ℕ) : Operation α → Answer α → Prop
  | .predict features, .predicted answer =>
    if features.size = width then ∃ probability, answer = .ok probability
    else answer = .error (.inputWidth width features.size)
  | .stage transition, .staged answer =>
    if transition.features.size = width then answer = .ok ()
    else answer = .error ⟨width, transition.features.size⟩
  | .optimize, .optimized answer => ∃ report, answer = .ok report
  | .commit, .committed _ | .save, .saved _ => True
  | .revise _, .done | .clear, .done | .push _, .done => True
  | _, _ => False

namespace Trainer

variable {α σ : Type} [Analysis α]

/-- The trainer can answer every operation, for observations of that width. -/
structure Ready (width : ℕ) (t : Trainer (Network α) α) : Prop where
  batch : t.config.batchSize ≠ 0
  interval : t.config.saveInterval ≠ 0
  policy : t.policy.IsPredictor width
  form : t.target.form = t.policy.form
  contents : ∀ transition ∈ t.memory.toList, transition.features.size = width
  staged : ∀ transition ∈ t.staging.transitions.toList, transition.features.size = width
  featureLength : t.staging.featureLength = some width
  unreshaped : t.optimizer.reshaped? t.policy.parameters = none

/-- A memory with enough transitions of one width gives a batch of that width. -/
theorem draw_of_ready {width : ℕ} {t : Trainer (Network α) α} (h : Ready width t)
    (henough : t.config.batchSize.toNat ≤ t.memory.size) :
    ∃ features rewards rows, t.draw.1 = .ok (features, rewards) ∧ rows ≠ 0 ∧
      features.shape = ⟨rows, width⟩ ∧ rewards.shape = ⟨rows, 1⟩ := by
  obtain ⟨drawn, hdrawn, hlength, hmem⟩ := ReplayMemory.sample_of_le henough
  have hrows : drawn.length ≠ 0 := by
    rw [hlength]
    exact fun hzero => h.batch (UInt64.toNat_inj.1 hzero)
  have hstackable : Stackable width drawn :=
    ⟨fun hnil => hrows (List.length_eq_zero_iff.2 hnil),
      fun transition ht => h.contents transition (hmem transition ht)⟩
  obtain ⟨features, rewards, hbatch, hfeatures, hrewards⟩ := batchOf_of_stackable hstackable
  refine ⟨features, rewards, drawn.length, ?_, hrows, hfeatures, hrewards⟩
  rw [draw_of_sample hdrawn hbatch]

/-- A step of a ready trainer is skipped or executed, as long as it can be counted. -/
theorem learn_of_ready {width : ℕ} {t : Trainer (Network α) α}
    (hbound : Arithmetic.atMost (-gradientBound : α) gradientBound = true) (h : Ready width t)
    (hcount : t.optimizer.steps ≠ Int32.maxValue) :
    ∃ progress t', t.learn = .ok (.ok progress, t') := by
  unfold learn
  dsimp only
  split
  · exact ⟨_, _, rfl⟩
  · rename_i henough
    obtain ⟨features, rewards, rows, hdrawn, hrows, hfeatures, hrewards⟩ :=
      draw_of_ready h (Nat.not_lt.1 henough)
    have hdraw := untrained_draw t
    cases hbatch : t.draw with
    | mk batch drawn =>
      rw [hbatch] at hdrawn hdraw
      subst hdrawn
      -- Neither drawing nor evaluating has learned anything, so that what makes the
      -- trainer ready still holds when the optimizer is asked.
      have hpolicy : drawn.policy.IsPredictor width := h.policy.of_form hdraw.form
      have htarget : drawn.target.IsPredictor width :=
        h.policy.of_form (by rw [hdraw.target, h.form])
      obtain ⟨loss, gradients, evaluated, hevaluate, hlayout⟩ : ∃ loss gradients evaluated,
          drawn.evaluate features rewards = .ok (.ok (loss, gradients), evaluated) ∧
            gradients.layout = drawn.policy.parameters.layout := by
        obtain ⟨clamped, _, hsame, hok⟩ :=
          evaluate_eq hpolicy htarget hfeatures hrewards hbound hrows
        exact ⟨_, clamped, _, hok, hsame⟩
      have hevaluated := hdraw.trans (evaluate_cases hevaluate).1
      have hform : evaluated.target.form = evaluated.policy.form := by
        rw [hevaluated.target, hevaluated.form, h.form]
      have hgradients : gradients.layout = evaluated.policy.parameters.layout := by
        rw [hlayout, hdraw.parameters, hevaluated.parameters]
      have hcountable : evaluated.optimizer.steps ≠ Int32.maxValue := by
        rw [hevaluated.optimizer]
        exact hcount
      have hunreshaped : evaluated.optimizer.reshaped? evaluated.policy.parameters = none := by
        rw [hevaluated.optimizer, hevaluated.parameters]
        exact h.unreshaped
      have hstep := Optimizer.step_of_layout hgradients hcountable hunreshaped
      obtain ⟨moved, hmoved, _⟩ := descend_of_step hform hstep
      refine ⟨.executed (moved.epoch + 1) loss, { moved with epoch := moved.epoch + 1 }, ?_⟩
      exact (bind_eq_of_ok hevaluate).trans (bind_eq_of_ok hmoved)

/-- An executed step leaves a ready trainer ready. -/
theorem ready_of_descends {width : ℕ} {t moved : Trainer (Network α) α} {gradients : Parameters α}
    (h : Ready width t) (hdescends : Descends t gradients moved) : Ready width moved where
  batch := by rw [hdescends.config]; exact h.batch
  interval := by rw [hdescends.config]; exact h.interval
  policy := h.policy.of_form hdescends.policyForm
  form := by rw [hdescends.targetForm, hdescends.policyForm, h.form]
  contents := by rw [hdescends.contents]; exact h.contents
  staged := by rw [hdescends.staging]; exact h.staged
  featureLength := by rw [hdescends.staging]; exact h.featureLength
  unreshaped := by
    rw [hdescends.optimizer]
    exact Optimizer.reshaped?_after h.unreshaped (Network.layout_of_form hdescends.policyForm)

/-- A step in which nothing was learned leaves a ready trainer ready. -/
theorem ready_of_untrained {width : ℕ} {t t' : Trainer (Network α) α} (h : Ready width t)
    (hsame : Untrained t t') : Ready width t' where
  batch := by rw [hsame.config]; exact h.batch
  interval := by rw [hsame.config]; exact h.interval
  policy := h.policy.of_form hsame.form
  form := by rw [hsame.target, hsame.form, h.form]
  contents := by rw [hsame.contents]; exact h.contents
  staged := by rw [hsame.staging]; exact h.staged
  featureLength := by rw [hsame.staging]; exact h.featureLength
  unreshaped := by rw [hsame.optimizer, hsame.parameters]; exact h.unreshaped

/-- No operation makes a ready trainer unready, unless it pushes an observation
of another width. -/
theorem ready_of_performs {width : ℕ} {t t' : Trainer (Network α) α} {op : Operation α}
    {answer : Answer α} (h : Ready width t) (hpush : op.Pushes width)
    (hop : Performs t op answer t') : Ready width t' := by
  cases hop with
  | predict | refuse | save => exact h
  | stage hstage =>
    obtain ⟨staging, hstaging, rfl⟩ := stage_eq_ok_iff.1 hstage
    rw [StagingArea.stage_of_some h.featureLength] at hstaging
    split at hstaging
    · rename_i hfits
      cases hstaging
      refine { h with staged := fun transition hmem => ?_, featureLength := rfl }
      rw [Array.toList_push, List.mem_append, List.mem_singleton] at hmem
      rcases hmem with hold | rfl
      · exact h.staged transition hold
      · exact hfits.symm
    · cases hstaging
  | revise outcome =>
    refine { h with staged := fun transition hmem => ?_ }
    rw [revise, StagingArea.revise, Array.toList_map] at hmem
    obtain ⟨staged, hstaged, rfl⟩ := List.mem_map.1 hmem
    exact h.staged staged hstaged
  | commit =>
    refine { h with contents := fun transition hmem => ?_, staged := fun _ hmem => nomatch hmem }
    rcases ReplayMemory.mem_of_mem_pushAll hmem with hold | hnew
    · exact h.contents transition hold
    · exact h.staged transition hnew
  | clear => exact { h with staged := fun _ hmem => nomatch hmem }
  | push pushed =>
    refine { h with contents := fun transition hmem => ?_ }
    have hmem : transition ∈ (t.memory.pushAll [pushed]).toList := hmem
    rcases ReplayMemory.mem_of_mem_pushAll hmem with hold | hnew
    · exact h.contents transition hold
    · rw [List.mem_singleton.1 hnew]
      exact hpush
  | optimize hlearn =>
    obtain ⟨_, _, rfl⟩ | ⟨_, _, _, hsame⟩ | ⟨_, _, moved, _, hdescends, rfl, _⟩ :=
      learn_cases h.form hlearn
    · exact h
    · exact ready_of_untrained h hsame
    · exact { ready_of_descends h hdescends with }

/-- A trainer of a configuration alone is ready for its number of features. -/
theorem ready_of_fromConfig [SnapshotStore (StateM σ) α] {config : Config α}
    {t : Trainer (Network α) α} (h : FromConfig σ config t) :
    ∃ inputSize, config.inputSize = some inputSize ∧ Ready inputSize.toNat t := by
  obtain ⟨hstarted, inputSize, hinputSize, hform⟩ := started_of_fromConfig h
  have hpredictor : t.policy.IsPredictor inputSize.toNat :=
    (Network.isPredictor_drawPredictor _ _ _ _).of_form hform
  have hvalid := (Config.validate_eq_ok_iff config).1 hstarted.valid
  have hbatch : (config.batchSize == 0) = false :=
    hvalid (config.batchSize == 0, _) (by rw [Config.faults]; exact List.mem_cons_self ..)
  have hinterval : (config.saveInterval == 0) = false :=
    hvalid (config.saveInterval == 0, ⟨.saveInterval, .notPositive⟩) (by simp [Config.faults])
  refine ⟨inputSize, hinputSize, ?_, ?_, hpredictor, hstarted.form, ?_, ?_, ?_, ?_⟩
  · rw [hstarted.config_eq]
    exact beq_eq_false_iff_ne.1 hbatch
  · rw [hstarted.config_eq]
    exact beq_eq_false_iff_ne.1 hinterval
  · rw [hstarted.eq]
    exact fun _ hmem => nomatch hmem
  · rw [hstarted.eq]
    exact fun _ hmem => nomatch hmem
  · rw [hstarted.eq]
    exact hpredictor.inputSize
  · refine Optimizer.reshaped?_of_empty ?_ _
    rw [hstarted.eq]
    rfl

/-- Whether a checkpoint is due is always decided. -/
theorem checkpointDue_eq_ok {β : Type} {t : Trainer (Network β) β} (h : t.config.saveInterval ≠ 0) :
    t.checkpointDue = .ok (t.epoch % t.config.saveInterval == 0) := by
  rw [checkpointDue, if_neg h]

/-- A step of a ready trainer ends with a report, whatever becomes of a checkpoint. -/
theorem optimize_of_ready [SnapshotStore (StateM σ) α] {width : ℕ} {t : Trainer (Network α) α}
    (hbound : Arithmetic.atMost (-gradientBound : α) gradientBound = true) (h : Ready width t)
    (hcount : t.optimizer.steps ≠ Int32.maxValue) (store : σ) :
    ∃ report t' store', (t.optimize : StateM σ _).run store = (.ok (.ok report, t'), store') := by
  obtain ⟨progress, t', hlearn⟩ := learn_of_ready hbound h hcount
  have hinterval : t'.config.saveInterval ≠ 0 := by
    obtain ⟨_, _, rfl⟩ | ⟨_, _, hfailed, _⟩ | ⟨_, _, moved, _, hdescends, rfl, _⟩ :=
      learn_cases h.form hlearn
    · exact h.interval
    · cases hfailed
    · exact (ready_of_descends h hdescends).interval
  have hdue := checkpointDue_eq_ok hinterval
  unfold optimize
  rw [hlearn]
  cases progress with
  | skipped available required => exact ⟨_, _, _, rfl⟩
  | executed epoch loss =>
    dsimp only
    rw [hdue]
    cases t'.epoch % t'.config.saveInterval == 0 <;> exact ⟨_, _, _, rfl⟩

/-- A ready trainer answers every operation as it should. -/
theorem answered_of_ready [SnapshotStore (StateM σ) α] {width : ℕ} {t : Trainer (Network α) α}
    (hbound : Arithmetic.atMost (-gradientBound : α) gradientBound = true) (h : Ready width t)
    (hcount : t.optimizer.steps ≠ Int32.maxValue) (op : Operation α) (store : σ) :
    ∃ answer t' store', (t.perform op : StateM σ _).run store = (.ok (answer, t'), store') ∧
      op.Answered width answer := by
  cases op with
  | predict features =>
    by_cases hwidth : features.size = width
    · have hcols : (Matrix.row features).cols = width := hwidth
      obtain ⟨hy, _⟩ := h.policy.predict_eq hcols
      obtain ⟨probability, hpredict⟩ : ∃ probability, t.predict features = .ok (.ok probability) :=
        ⟨_, bind_eq_of_ok hy⟩
      refine ⟨.predicted (.ok probability), t, store, by rw [perform, hpredict]; rfl, ?_⟩
      rw [Operation.Answered, if_pos hwidth]
      exact ⟨_, rfl⟩
    · have hcols : (Matrix.row features).cols ≠ width := hwidth
      have hrefused := h.policy.predict_eq_error hcols
      have hpredict : t.predict features = .ok (.error (.inputWidth width features.size)) :=
        bind_eq_of_ok hrefused
      refine ⟨.predicted (.error _), t, store, by rw [perform, hpredict]; rfl, ?_⟩
      rw [Operation.Answered, if_neg hwidth]
  | stage transition =>
    have hstage := StagingArea.stage_of_some h.featureLength transition
    by_cases hwidth : transition.features.size = width
    · rw [if_pos hwidth.symm] at hstage
      have hstaged := stage_eq_ok_iff.2 ⟨_, hstage, rfl⟩
      refine ⟨.staged (.ok ()), _, store, by rw [perform, hstaged]; rfl, ?_⟩
      rw [Operation.Answered, if_pos hwidth]
    · rw [if_neg (Ne.symm hwidth)] at hstage
      have hrefused := stage_eq_error hstage
      refine ⟨.staged (.error _), t, store, by rw [perform, hrefused]; rfl, ?_⟩
      rw [Operation.Answered, if_neg hwidth]
  | revise outcome => exact ⟨_, _, _, rfl, trivial⟩
  | commit => exact ⟨_, _, _, rfl, trivial⟩
  | clear => exact ⟨_, _, _, rfl, trivial⟩
  | push transition => exact ⟨_, _, _, rfl, trivial⟩
  | optimize =>
    obtain ⟨report, t', store', hrun⟩ := optimize_of_ready hbound h hcount store
    refine ⟨.optimized (.ok report), t', store', ?_, report, rfl⟩
    rw [perform, run_bind, hrun]
    rfl
  | save => exact ⟨_, _, _, rfl, trivial⟩

/-- A trainer stays ready in every run that pushes observations of its width only. -/
theorem ready_of_run [SnapshotStore (StateM σ) α] {width : ℕ} {first t : Trainer (Network α) α}
    {history : History α} (h : Ready width first) (run : Run σ first history t)
    (hpushes : ∀ entry ∈ history, entry.1.Pushes width) : Ready width t := by
  refine run.invariant (fun history t => (∀ entry ∈ history, entry.1.Pushes width) → Ready width t)
    (fun _ => h) ?_ hpushes
  intro history t op answer t' hready hop hpushes
  rw [List.forall_mem_append] at hpushes
  exact ready_of_performs (hready hpushes.1) (hpushes.2 _ (List.mem_singleton_self _)) hop

/-- With enough transitions a step of a ready trainer is executed. -/
theorem executed_of_ready [SnapshotStore (StateM σ) α] {width : ℕ} {t : Trainer (Network α) α}
    (hbound : Arithmetic.atMost (-gradientBound : α) gradientBound = true) (h : Ready width t)
    (hcount : t.optimizer.steps ≠ Int32.maxValue)
    (henough : t.config.batchSize.toNat ≤ t.memory.size) (store : σ) :
    ∃ report t' store', (t.optimize : StateM σ _).run store = (.ok (.ok report, t'), store') ∧
      (Answer.optimized (.ok report)).isExecuted = true := by
  obtain ⟨report, t', store', hrun⟩ := optimize_of_ready hbound h hcount store
  refine ⟨report, t', store', hrun, ?_⟩
  rw [Answer.isExecuted_optimized]
  obtain ⟨hfew, _, _⟩ | ⟨_, _, hfailed, _⟩ | ⟨_, _, _, _, _, _, hexecuted⟩ :=
    learn_cases h.form (learn_of_optimize hrun)
  · omega
  · cases hfailed
  · rw [hexecuted]
    rfl

/-- An accepted memory has room for a batch. -/
theorem Started.batch_le_capacity {config : Config α} {t : Trainer (Network α) α}
    (h : Started config t) : config.batchSize.toNat ≤ t.memory.capacity := by
  have hvalid := (Config.validate_eq_ok_iff config).1 h.valid
  have hroom : decide (config.memorySize < config.batchSize) = false :=
    hvalid (decide (config.memorySize < config.batchSize),
      ⟨.memorySize, .smallerThanBatch config.memorySize config.batchSize⟩)
      (by simp [Config.faults])
  have hle : ¬config.memorySize.toNat < config.batchSize.toNat :=
    UInt64.lt_iff_toNat_lt.not.1 (of_decide_eq_false hroom)
  rw [h.eq]
  exact Nat.not_lt.1 hle

/-- Training in batches of one, the predictor of a configuration makes an executed
step as soon as one observation of its width has been pushed. -/
theorem exists_executed_run [SnapshotStore (StateM σ) α] {config : Config α}
    {first : Trainer (Network α) α}
    (hbound : Arithmetic.atMost (-gradientBound : α) gradientBound = true)
    (hbuilt : FromConfig σ config first) (hbatch : config.batchSize = 1) {inputSize : UInt64}
    (hinputSize : config.inputSize = some inputSize) (transition : Transition α)
    (hwidth : transition.features.size = inputSize.toNat) (store : σ) :
    ∃ report t,
      Run σ first [(.push transition, .done), (.optimize, .optimized (.ok report))] t ∧
      History.executed [(.push transition, .done), (.optimize, .optimized (.ok report))] = 1 := by
  obtain ⟨width, hwidthOf, hready⟩ := ready_of_fromConfig hbuilt
  rw [hinputSize] at hwidthOf
  cases hwidthOf
  have hstarted := (started_of_fromConfig hbuilt).1
  have hpush : Run σ first [(.push transition, .done)] (first.push transition) :=
    .next .start ⟨store, store, rfl⟩
  have hpushes : (Operation.push transition).Pushes inputSize.toNat := hwidth
  have hpushed : Ready inputSize.toNat (first.push transition) :=
    ready_of_performs hready hpushes (.push transition)
  have hcount : (first.push transition).optimizer.steps ≠ Int32.maxValue := by
    have hsteps := steps_of_run hstarted hpush
    intro hmax
    rw [hmax] at hsteps
    cases hsteps
  have henough : (first.push transition).config.batchSize.toNat ≤
      (first.push transition).memory.size := by
    have hroom := hstarted.batch_le_capacity
    have hsize := first.memory.size_push transition
    change first.config.batchSize.toNat ≤ (first.memory.push transition).size
    rw [hstarted.config_eq]
    rw [hbatch] at hroom ⊢
    have hone : (1 : UInt64).toNat = 1 := rfl
    omega
  obtain ⟨report, t, store', hrun, hexecuted⟩ :=
    executed_of_ready hbound hpushed hcount henough store
  refine ⟨report, t, .next hpush ⟨store, store', ?_⟩, ?_⟩
  · rw [perform, run_bind, hrun]
    rfl
  · have hlast := History.executed_append [(.push transition, .done)] .optimize
      (.optimized (.ok report))
    rw [hexecuted] at hlast
    exact hlast

/-- Training with doubles never fails on a trainer of a configuration alone. After
every run that pushes observations of the configured width only and has executed
fewer steps than a 32 bit count can hold, every operation meets no fault and is
answered as it should be, whatever becomes of the files. No such run comes to a
stop, therefore. -/
theorem perform_answered [SnapshotStore (StateM σ) Float] {config : Config Float}
    {first t : Trainer (Network Float) Float} {history : History Float}
    (hbuilt : FromConfig σ config first) (hrun : Run σ first history t) :
    ∃ inputSize, config.inputSize = some inputSize ∧
      ((∀ entry ∈ history, entry.1.Pushes inputSize.toNat) → history.executed < 2147483647 →
        ∀ (op : Operation Float) (store : σ), ∃ answer t' store',
          (t.perform op : StateM σ _).run store = (.ok (answer, t'), store') ∧
            op.Answered inputSize.toNat answer) := by
  obtain ⟨inputSize, hinputSize, hready⟩ := ready_of_fromConfig hbuilt
  refine ⟨inputSize, hinputSize, fun hpushes hcount op store => ?_⟩
  have hbound : Arithmetic.atMost (-gradientBound : Float) gradientBound = true := by decide
  have hsteps := steps_of_run (started_of_fromConfig hbuilt).1 hrun
  have hcountable : t.optimizer.steps ≠ Int32.maxValue := by
    intro hmax
    rw [hmax, Int32.toInt_maxValue] at hsteps
    omega
  exact answered_of_ready hbound (ready_of_run hready hrun hpushes) hcountable op store

/-- The trainer of `singleConfig` alone. -/
def singleTrainer : Trainer (Network Float) Float :=
  atStart singleConfig (Network.drawPredictor 2 [] .relu (.ofSeed 1)).1

/-- With one observation in the memory the predictor of two features is trained. -/
theorem perform_answered_singleTrainer :
    FromConfig FileTree singleConfig singleTrainer ∧ ∃ report t' tree,
      ((singleTrainer.push pairTransition).perform .optimize : StateM FileTree _).run .empty =
        (.ok (.optimized (.ok report), t'), tree) := by
  have hbuilt : FromConfig FileTree singleConfig singleTrainer :=
    fromConfig_atStart validate_singleConfig rfl rfl
  have hrun : Run FileTree singleTrainer [(.push pairTransition, .done)]
      (singleTrainer.push pairTransition) := .next .start ⟨.empty, .empty, rfl⟩
  obtain ⟨inputSize, hinputSize, hanswered⟩ := perform_answered hbuilt hrun
  cases hinputSize
  have hpushes : ∀ entry ∈ [((.push pairTransition, .done) : Operation Float × Answer Float)],
      entry.1.Pushes (2 : UInt64).toNat := by
    intro entry hentry
    rw [List.mem_singleton.1 hentry]
    rfl
  obtain ⟨answer, t', tree, hperform, hreport⟩ :=
    hanswered hpushes (by decide) .optimize .empty
  cases answer with
  | optimized answer =>
    obtain ⟨report, rfl⟩ := hreport
    exact ⟨hbuilt, report, t', tree, hperform⟩
  | _ => exact hreport.elim

end Trainer

end DeferredReward
