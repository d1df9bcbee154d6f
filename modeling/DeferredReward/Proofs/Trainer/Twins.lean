import DeferredReward.Proofs.Config
import DeferredReward.Proofs.Evidence
import DeferredReward.Proofs.Trainer.Files
import DeferredReward.Proofs.Trainer.Readiness

/-!
# What training does not depend on

The probabilities that come with transitions are hints, and so are the device,
the exploration rates and the settings that only say when training is over and
what is saved where. Trainers that differ in hints only are twins: whatever is
asked of two twins in the same way is answered in the same way and leaves twins,
whatever becomes of their files.

Main statements: `twins_of_runs`, `hints_do_not_interfere`.
-/

namespace DeferredReward

variable {α : Type}

/-- The operations differ at most in predicted probabilities. -/
inductive Operation.Resembles : Operation α → Operation α → Prop where
  /-- Evidence is staged, with any probability. -/
  | stage {t t' : Transition α} (h : t.evidence = t'.evidence) : Resembles (.stage t) (.stage t')
  /-- Evidence is pushed, with any probability. -/
  | push {t t' : Transition α} (h : t.evidence = t'.evidence) : Resembles (.push t) (.push t')
  /-- The same operation. -/
  | same (op : Operation α) : Resembles op op

/-- The configurations differ at most in hints: the device, the exploration rates, the last
epoch, and when and where checkpoints are written. -/
def Config.Resembles (c c' : Config α) : Prop :=
  c' = { c with
    device := c'.device
    exploreStart := c'.exploreStart
    exploreStop := c'.exploreStop
    exploreDecay := c'.exploreDecay
    epochs := c'.epochs
    saveInterval := c'.saveInterval
    outputPath := c'.outputPath }

/-- Histories that end with an operation resemble each other up to there, and so do their last
operations. -/
theorem History.resembling_last {history history' : History α} {op : Operation α}
    {answer : Answer α}
    (h : List.Forall₂ (fun entry entry' => entry.1.Resembles entry'.1) (history ++ [(op, answer)])
      history') :
    ∃ earlier op' answer', history' = earlier ++ [(op', answer')] ∧ op.Resembles op' ∧
      List.Forall₂ (fun entry entry' => entry.1.Resembles entry'.1) history earlier := by
  have hearlier := List.forall₂_take_append _ _ _ h.flip
  have hlast := List.forall₂_drop_append _ _ _ h.flip
  obtain ⟨⟨op', answer'⟩, rest, hop, hrest, hdrop⟩ := List.forall₂_cons_right_iff.1 hlast
  cases hrest
  refine ⟨_, op', answer', ?_, hop, hearlier.flip⟩
  rw [← hdrop, List.take_append_drop]

namespace Trainer

variable {ν σ : Type}

/-- The batch of a draw depends on its evidence only. -/
theorem batchOf_of_evidence [Analysis α] {ts ts' : List (Transition α)}
    (h : evidenceOf ts = evidenceOf ts') : batchOf ts = batchOf ts' := by
  have hfeatures : ts.map Transition.features = ts'.map Transition.features := by
    have hfirst := congrArg (List.map Prod.fst) h
    rw [evidenceOf, evidenceOf, List.map_map, List.map_map] at hfirst
    exact hfirst
  have hrewards : ts.map Transition.reward = ts'.map Transition.reward := by
    have hsecond := congrArg (List.map Prod.snd) h
    rw [evidenceOf, evidenceOf, List.map_map, List.map_map] at hsecond
    exact hsecond
  unfold batchOf
  rw [hfeatures, hrewards]

/-- The trainers differ at most in hints. -/
structure Twins (t t' : Trainer ν α) : Prop where
  config : t.config.Resembles t'.config
  interval : t.config.saveInterval ≠ 0
  otherInterval : t'.config.saveInterval ≠ 0
  policy : t.policy = t'.policy
  target : t.target = t'.target
  optimizer : t.optimizer = t'.optimizer
  memory : t.memory.Resembles t'.memory
  staging : t.staging.Resembles t'.staging
  epoch : t.epoch = t'.epoch

section Learning

variable [Analysis α] {t t' : Trainer ν α}

/-- Twins draw the same batch. -/
theorem twins_draw (h : Twins t t') : Alike Twins t.draw t'.draw := by
  have hbatch : t.config.batchSize = t'.config.batchSize := by rw [h.config]
  obtain ⟨hdrawn, hmemory⟩ := h.memory.sample t.config.batchSize.toNat
  unfold draw
  rw [← hbatch]
  generalize t.memory.sample t.config.batchSize.toNat = drawn at hdrawn hmemory
  generalize t'.memory.sample t.config.batchSize.toNat = drawn' at hdrawn hmemory
  obtain ⟨answer, memory⟩ := drawn
  obtain ⟨answer', memory'⟩ := drawn'
  cases answer with
  | error cause =>
    cases answer' with
    | error cause' =>
      cases hdrawn
      exact ⟨rfl, { h with memory := hmemory }⟩
    | ok drawn' => cases hdrawn
  | ok drawn =>
    cases answer' with
    | error cause' => cases hdrawn
    | ok drawn' =>
      have hevidence : evidenceOf drawn = evidenceOf drawn' := Except.ok.inj hdrawn
      dsimp only
      rw [batchOf_of_evidence hevidence]
      cases batchOf drawn' <;> exact ⟨rfl, { h with memory := hmemory }⟩

variable [Trainable ν α]

/-- Twins evaluate a batch alike. -/
theorem twins_evaluate (h : Twins t t') (features rewards : Matrix α) :
    SameOutcome (Alike Twins) (t.evaluate features rewards) (t'.evaluate features rewards) := by
  have hdiscount : t.config.discount = t'.config.discount := by rw [h.config]
  unfold evaluate
  refine .bind (.of_eq (by rw [h.policy])) ?_
  rintro ⟨predicted, policy⟩ _ rfl
  have hforwarded : Twins { t with policy } { t' with policy } := { h with policy := rfl }
  cases predicted with
  | error cause => exact .result ⟨rfl, hforwarded⟩
  | ok predicted =>
    dsimp only
    refine .bind (.of_eq (by rw [h.target])) ?_
    rintro ahead _ rfl
    cases ahead with
    | error cause => exact .result ⟨rfl, hforwarded⟩
    | ok ahead =>
      refine .bind (.of_eq (by rw [hdiscount])) ?_
      rintro expected _ rfl
      refine .bind (.of_eq rfl) ?_
      rintro loss _ rfl
      refine .bind (.of_eq rfl) ?_
      rintro slope _ rfl
      refine .bind (.of_eq rfl) ?_
      rintro ⟨gradients, policy⟩ _ rfl
      have hbacked : Twins { t with policy } { t' with policy } := { h with policy := rfl }
      cases gradients with
      | error cause => exact .result ⟨rfl, hbacked⟩
      | ok gradients =>
        refine .bind (.of_eq rfl) ?_
        rintro clamped _ rfl
        exact .result ⟨rfl, hbacked⟩

/-- Trainers with the same networks, the same optimizer and the same weight of the policy descend
alike, when they are related whatever networks and optimizer are put into both. -/
theorem descend_alike {related : Trainer ν α → Trainer ν α → Prop}
    (hpolicy : t.policy = t'.policy) (htarget : t.target = t'.target)
    (hoptimizer : t.optimizer = t'.optimizer)
    (hweight : t.config.blendWeight = t'.config.blendWeight)
    (hrelated : ∀ policy target optimizer,
      related { t with policy, target, optimizer } { t' with policy, target, optimizer })
    (gradients : Parameters α) :
    SameOutcome (Alike related) (t.descend gradients) (t'.descend gradients) := by
  obtain ⟨config, policy, target, optimizer, memory, staging, epoch⟩ := t
  obtain ⟨config', policy', target', optimizer', memory', staging', epoch'⟩ := t'
  dsimp only at hpolicy htarget hoptimizer hweight hrelated
  subst hpolicy htarget hoptimizer
  unfold descend
  refine .bind (.of_eq rfl) ?_
  rintro ⟨moved, optimizer⟩ _ rfl
  cases moved with
  | error cause => exact .result ⟨rfl, hrelated policy target optimizer⟩
  | ok parameters =>
    refine .bind (.of_eq rfl) ?_
    rintro installed _ rfl
    cases installed with
    | error cause =>
      exact .result ⟨rfl, hrelated (Trainable.refusing policy parameters) target optimizer⟩
    | ok policy =>
      dsimp only
      rw [hweight]
      cases parameters.blend (Trainable.parameters target) config'.blendWeight with
      | error cause => exact .result ⟨rfl, hrelated policy target optimizer⟩
      | ok followed =>
        refine .bind (.of_eq rfl) ?_
        rintro installed _ rfl
        cases installed with
        | error cause =>
          exact .result ⟨rfl, hrelated policy (Trainable.refusing target followed) optimizer⟩
        | ok target => exact .result ⟨rfl, hrelated policy target optimizer⟩

/-- Twins descend alike. -/
theorem twins_descend (h : Twins t t') (gradients : Parameters α) :
    SameOutcome (Alike Twins) (t.descend gradients) (t'.descend gradients) := by
  have hweight : t.config.blendWeight = t'.config.blendWeight := by rw [h.config]
  exact descend_alike h.policy h.target h.optimizer hweight (fun _ _ _ =>
    { h with policy := rfl, target := rfl, optimizer := rfl }) gradients

/-- Steps that have drawn batches learn alike, when the batches are evaluated alike and what is
related descends alike and counts alike. -/
theorem learn_alike {related : Trainer ν α → Trainer ν α → Prop} {drawn drawn' : Trainer ν α}
    {batch batch' : Matrix α × Matrix α} (henough : ¬t.memory.size < t.config.batchSize.toNat)
    (henough' : ¬t'.memory.size < t'.config.batchSize.toNat) (hdraw : t.draw = (.ok batch, drawn))
    (hdraw' : t'.draw = (.ok batch', drawn'))
    (hevaluate : SameOutcome (Alike related) (drawn.evaluate batch.1 batch.2)
      (drawn'.evaluate batch'.1 batch'.2))
    (hdescend : ∀ t t', related t t' → ∀ gradients,
      SameOutcome (Alike related) (t.descend gradients) (t'.descend gradients))
    (hcount : ∀ t t', related t t' → t.epoch = t'.epoch ∧
      ∀ epoch, related { t with epoch } { t' with epoch }) :
    SameOutcome (Alike related) t.learn t'.learn := by
  unfold learn
  dsimp only
  rw [if_neg henough, if_neg henough', hdraw, hdraw']
  refine .bind hevaluate ?_
  rintro ⟨evaluation, t⟩ ⟨_, t'⟩ ⟨rfl, hevaluated⟩
  cases evaluation with
  | error cause => exact .result ⟨rfl, hevaluated⟩
  | ok evaluation =>
    refine .bind (hdescend t t' hevaluated evaluation.2) ?_
    rintro ⟨descent, t⟩ ⟨_, t'⟩ ⟨rfl, hdescended⟩
    cases descent with
    | error cause => exact .result ⟨rfl, hdescended⟩
    | ok =>
      obtain ⟨hepoch, hnext⟩ := hcount t t' hdescended
      dsimp only
      rw [hepoch]
      exact .result ⟨rfl, hnext (t'.epoch + 1)⟩

/-- Twins learn alike. -/
theorem twins_learn (h : Twins t t') : SameOutcome (Alike Twins) t.learn t'.learn := by
  have hbatch : t.config.batchSize = t'.config.batchSize := by rw [h.config]
  have hsize := h.memory.size
  obtain ⟨hdrawn, hdrew⟩ := twins_draw h
  by_cases hfew : t.memory.size < t.config.batchSize.toNat
  · have hfew' : t'.memory.size < t'.config.batchSize.toNat := hsize ▸ hbatch ▸ hfew
    unfold learn
    dsimp only
    rw [if_pos hfew, if_pos hfew', hsize, hbatch]
    exact .result ⟨rfl, h⟩
  · have henough' : ¬t'.memory.size < t'.config.batchSize.toNat := hsize ▸ hbatch ▸ hfew
    cases hdraw : t.draw with
    | mk batch drawn =>
      cases hdraw' : t'.draw with
      | mk batch' drawn' =>
        rw [hdraw, hdraw'] at hdrawn hdrew
        dsimp only at hdrawn hdrew
        subst hdrawn
        cases batch with
        | error cause =>
          unfold learn
          dsimp only
          rw [if_neg hfew, if_neg henough', hdraw, hdraw']
          exact .result ⟨rfl, hdrew⟩
        | ok batch =>
          exact learn_alike hfew henough' hdraw hdraw' (twins_evaluate hdrew batch.1 batch.2)
            (fun _ _ => twins_descend) fun _ _ h => ⟨h.epoch, fun _ => { h with epoch := rfl }⟩

/-- Twins stage the same evidence alike. -/
theorem performWith_stage_of_twins (h : Twins t t') {transition transition' : Transition α}
    (htransition : transition.evidence = transition'.evidence)
    (checkpoint checkpoint' : Checkpoint) (saved saved' : Except SnapshotError Path) :
    SameOutcome (AnswersAlike Twins) (t.performWith checkpoint saved (.stage transition))
      (t'.performWith checkpoint' saved' (.stage transition')) := by
  refine .result ?_
  obtain ⟨next, next', hnext, hnext', hstaged⟩ | ⟨cause, hcause, hcause'⟩ :=
    h.staging.stage htransition
  · rw [stage_eq_ok_iff.2 ⟨next, hnext, rfl⟩, stage_eq_ok_iff.2 ⟨next', hnext', rfl⟩]
    exact ⟨rfl, { h with staging := hstaged }⟩
  · rw [stage_eq_error hcause, stage_eq_error hcause']
    exact ⟨rfl, h⟩

/-- Twins answer alike, whatever becomes of their files, and remain twins. -/
theorem performWith_of_twins (h : Twins t t') {op op' : Operation α} (hop : op.Resembles op')
    (checkpoint checkpoint' : Checkpoint) (saved saved' : Except SnapshotError Path) :
    SameOutcome (AnswersAlike Twins) (t.performWith checkpoint saved op)
      (t'.performWith checkpoint' saved' op') := by
  cases hop with
  | stage htransition => exact performWith_stage_of_twins h htransition ..
  | push htransition => exact .result ⟨rfl, { h with memory := h.memory.push htransition }⟩
  | same =>
    cases op with
    | predict features =>
      have hpredict : t.predict features = t'.predict features := by
        unfold predict
        rw [h.policy]
      rw [performWith, performWith, hpredict]
      exact (SameOutcome.of_eq rfl).map fun _ _ heq => heq ▸ ⟨rfl, h⟩
    | stage transition => exact performWith_stage_of_twins h rfl ..
    | revise outcome =>
      have hkeep : t.config.rewardWeight = t'.config.rewardWeight := by rw [h.config]
      refine .result ⟨rfl, { h with staging := ?_ }⟩
      rw [revise, revise, hkeep]
      exact h.staging.revise outcome _
    | commit =>
      exact .result ⟨congrArg Answer.committed h.staging.size, { h with
        memory := h.memory.pushAll h.staging.pending
        staging := h.staging.clear }⟩
    | clear => exact .result ⟨rfl, { h with staging := h.staging.clear }⟩
    | push transition => exact .result ⟨rfl, { h with memory := h.memory.push rfl }⟩
    | optimize =>
      refine (optimizedWith_alike (twins_learn h) ?_ checkpoint checkpoint').map fun _ _ h => h
      intro t t' h
      rw [checkpointDue, if_neg h.interval, checkpointDue, if_neg h.otherInterval]
      exact .result trivial
    | save => exact .result ⟨rfl, h⟩

section Store

variable [SnapshotStore (StateM σ) α]

/-- Twins answer alike in any two stores. -/
theorem perform_of_twins (h : Twins t t') {op op' : Operation α} (hop : op.Resembles op')
    (store store' : σ) :
    SameOutcome (AnswersAlike Twins) ((t.perform op : StateM σ _).run store).1
      ((t'.perform op' : StateM σ _).run store').1 := by
  obtain ⟨checkpoint, saved, hperform⟩ := exists_performWith t op store
  obtain ⟨checkpoint', saved', hperform'⟩ := exists_performWith t' op' store'
  rw [hperform, hperform']
  exact performWith_of_twins h hop checkpoint checkpoint' saved saved'

/-- Two runs of twins in which they are asked the same up to probabilities get the same answers,
apart from files, and leave twins. -/
theorem twins_of_runs {first first' t t' : Trainer ν α} {history history' : History α}
    (h : Twins first first') (hrun : Run σ first history t) (hrun' : Run σ first' history' t')
    (hops : List.Forall₂ (fun entry entry' => entry.1.Resembles entry'.1) history history') :
    history.outcomes = history'.outcomes ∧ Twins t t' := by
  induction hrun generalizing history' t' with
  | start =>
    cases hops
    rw [hrun'.eq_of_nil]
    exact ⟨rfl, h⟩
  | @next history before t op answer run hstep ih =>
    obtain ⟨earlier, op', answer', rfl, hop, hearlier⟩ := History.resembling_last hops
    obtain ⟨before', hrun', store', _, hstep'⟩ := hrun'.last
    obtain ⟨store, _, hstep⟩ := hstep
    obtain ⟨houtcomes, htwins⟩ := ih hrun' hearlier
    have halike := perform_of_twins htwins hop store store'
    rw [hstep, hstep'] at halike
    cases halike with
    | result halike =>
      rw [History.outcomes_append, History.outcomes_append, houtcomes, halike.1]
      exact ⟨rfl, halike.2⟩

/-- How two constructions can come out alike: refused for the same reason, or with twins. -/
inductive BuiltAlike : Except (BuildError α) (Trainer ν α) → Except (BuildError α) (Trainer ν α) →
    Prop where
  /-- Both are refused. -/
  | refused (cause : BuildError α) : BuiltAlike (.error cause) (.error cause)
  /-- Both succeed. -/
  | built {t t' : Trainer ν α} (h : Twins t t') : BuiltAlike (.ok t) (.ok t')

/-- Configurations that differ in hints only start twins around one policy. -/
theorem start_alike {config config' : Config α} (hconfig : config.Resembles config')
    (hinterval : config.saveInterval ≠ 0) (hinterval' : config'.saveInterval ≠ 0) (policy : ν) :
    SameOutcome BuiltAlike (start config policy) (start config' policy) := by
  unfold start
  refine .bind (.of_eq rfl) ?_
  rintro installed _ rfl
  cases installed with
  | error cause => exact .result (.refused _)
  | ok target =>
    have hrate : config.learningRate = config'.learningRate := by rw [hconfig]
    have hsize : config.memorySize = config'.memorySize := by rw [hconfig]
    have hseed : config.seed = config'.seed := by rw [hconfig]
    refine .result (.built ⟨hconfig, hinterval, hinterval', rfl, rfl, ?_, ?_, ⟨rfl, rfl⟩, rfl⟩)
    · dsimp only
      rw [hrate]
    · dsimp only
      rw [hsize, hseed]
      exact ⟨rfl, rfl, rfl⟩

/-- A snapshot that the configuration names to start from is the same in both stores. -/
def SameSnapshot (config : Config α) (store store' : σ) : Prop :=
  config.loadModel = true → ∀ path, config.loadPath = some path →
    ((SnapshotStore.load path : StateM σ (Except SnapshotError (Parameters α))).run store).1 =
      ((SnapshotStore.load path : StateM σ (Except SnapshotError (Parameters α))).run store').1

/-- Around one network, configurations that differ in hints only build twins, as long as a snapshot
to start from is the same for both. -/
theorem build_alike {config config' : Config α} (hconfig : config.Resembles config')
    (hinterval : config.saveInterval ≠ 0) (hinterval' : config'.saveInterval ≠ 0) (network : ν)
    {store store' : σ} (hsnapshot : SameSnapshot config store store') :
    SameOutcome BuiltAlike ((build config network : StateM σ _).run store).1
      ((build config' network : StateM σ _).run store').1 := by
  have hmodel : config.loadModel = config'.loadModel := by rw [hconfig]
  have hpath : config.loadPath = config'.loadPath := by rw [hconfig]
  unfold build
  rw [← hmodel, ← hpath]
  split
  · rename_i path hload hsome
    rw [run_bind, run_bind, ← hsnapshot hload path hsome]
    cases ((SnapshotStore.load path : StateM σ (Except SnapshotError (Parameters α))).run
      store).1 with
    | error cause => exact .result (.refused _)
    | ok parameters =>
      dsimp only
      cases Trainable.install network parameters with
      | error fault => exact .fault fault
      | ok installed =>
        cases installed with
        | error cause => exact .result (.refused _)
        | ok policy => exact start_alike hconfig hinterval hinterval' policy
  · exact start_alike hconfig hinterval hinterval' network

end Store

end Learning

section Network

variable [Analysis α] [SnapshotStore (StateM σ) α]

/-- Both trainers come from their configurations around the same network: a given one, or the
predictor that each configuration describes. A snapshot to start from is the same for both. -/
inductive BuiltTogether (σ : Type) [SnapshotStore (StateM σ) α] (config config' : Config α)
    (t t' : Trainer (Network α) α) : Prop where
  /-- The network was given. -/
  | given {network : Network α} {store store' after after' : σ}
      (hsnapshot : SameSnapshot config store store')
      (h : (ofNetwork config network : StateM σ _).run store = (.ok (.ok t), after))
      (h' : (ofNetwork config' network : StateM σ _).run store' = (.ok (.ok t'), after'))
  /-- The network is the predictor of each configuration. -/
  | described {store store' after after' : σ}
      (hsnapshot : SameSnapshot config store store')
      (h : (ofConfig config : StateM σ _).run store = (.ok (.ok t), after))
      (h' : (ofConfig config' : StateM σ _).run store' = (.ok (.ok t'), after'))

/-- Trainers that are built together from configurations that differ in hints only are twins. -/
theorem twins_of_builtTogether {config config' : Config α} {t t' : Trainer (Network α) α}
    (hconfig : config.Resembles config') (hbuilt : BuiltTogether σ config config' t t') :
    Twins t t' := by
  have hbuild : ∀ {network : Network α} {store store' after after' : σ},
      SameSnapshot config store store' →
      config.validate = .ok () → config'.validate = .ok () →
      (build config network : StateM σ _).run store = (.ok (.ok t), after) →
      (build config' network : StateM σ _).run store' = (.ok (.ok t'), after') → Twins t t' := by
    intro network store store' after after' hsnapshot hvalid hvalid' h h'
    have halike := build_alike hconfig (Config.saveInterval_ne_zero hvalid)
      (Config.saveInterval_ne_zero hvalid') network hsnapshot
    rw [h, h'] at halike
    cases halike with
    | result halike =>
      cases halike with
      | built htwins => exact htwins
  cases hbuilt with
  | given hsnapshot h h' =>
    unfold ofNetwork at h h'
    split at h
    · cases h
    · rename_i hvalid
      split at h'
      · cases h'
      · rename_i hvalid'
        exact hbuild hsnapshot hvalid hvalid' h h'
  | described hsnapshot h h' =>
    unfold ofConfig at h h'
    split at h
    · cases h
    · rename_i hvalid
      split at h'
      · cases h'
      · rename_i hvalid'
        have hinputSize : config.inputSize = config'.inputSize := by rw [hconfig]
        have hhidden : config.hiddenSizes = config'.hiddenSizes := by rw [hconfig]
        have hactivation : config.hiddenActivation = config'.hiddenActivation := by rw [hconfig]
        have hseed : config.seed = config'.seed := by rw [hconfig]
        rw [← hinputSize, ← hhidden, ← hactivation, ← hseed] at h'
        cases hinput : config.inputSize with
        | none =>
          rw [hinput] at h
          cases h
        | some inputSize =>
          rw [hinput] at h h'
          exact hbuild hsnapshot hvalid hvalid' h h'

/-- Two trainers around the same network whose configurations differ at most in the device, the
exploration rates, the last epoch, and when and where checkpoints are written, and that are asked
the same up to the probabilities of transitions, give the same answers, whatever becomes of their
files: apart from what is told about files, no prediction, count or report of a step differs, and no
fault. They have the same networks, and the features and rewards of their transitions are the
same. -/
theorem hints_do_not_interfere {config config' : Config α}
    {first first' t t' : Trainer (Network α) α}
    {history history' : History α} (hconfig : config.Resembles config')
    (hbuilt : BuiltTogether σ config config' first first')
    (hrun : Run σ first history t) (hrun' : Run σ first' history' t')
    (hops : List.Forall₂ (fun entry entry' => entry.1.Resembles entry'.1) history history') :
    history.outcomes = history'.outcomes ∧
      t.policy = t'.policy ∧ t.target = t'.target ∧ t.epoch = t'.epoch ∧
      evidenceOf t.memory.toList = evidenceOf t'.memory.toList ∧
      evidenceOf t.staging.transitions.toList = evidenceOf t'.staging.transitions.toList ∧
      ∀ op op' : Operation α, op.Resembles op' → ∀ store store' : σ,
        SameOutcome (fun r r' => r.1.withoutFiles = r'.1.withoutFiles)
          ((t.perform op : StateM σ _).run store).1
          ((t'.perform op' : StateM σ _).run store').1 := by
  obtain ⟨houtcomes, htwins⟩ :=
    twins_of_runs (twins_of_builtTogether hconfig hbuilt) hrun hrun' hops
  refine ⟨houtcomes, htwins.policy, htwins.target, htwins.epoch, htwins.memory.contents,
    htwins.staging.pending, ?_⟩
  intro op op' hop store store'
  exact (perform_of_twins htwins hop store store').imp fun _ _ h => h.1

end Network

/-- `singleConfig` for another device, with other exploration, epochs and checkpoints. -/
def hintedConfig : Config Float :=
  { singleConfig with
    device := "cuda:0"
    exploreStart := 0.5
    exploreStop := 0.25
    exploreDecay := 7
    epochs := 3
    saveInterval := 4
    outputPath := ⟨"elsewhere"⟩ }

theorem validate_hintedConfig : hintedConfig.validate = .ok () := by
  rw [Config.validate_eq_ok_iff]
  decide +kernel

/-- The trainers of `singleConfig` and `hintedConfig` make the same step after the same observation,
whatever probability came with it. -/
theorem hints_do_not_interfere_singleTrainer :
    ∃ report report' t t',
      Run FileTree singleTrainer
        [(.push pairTransition, .done), (.optimize, .optimized (.ok report))] t ∧
      Run FileTree (atStart hintedConfig singleTrainer.policy)
        [(.push { pairTransition with probability := 0.25 }, .done),
          (.optimize, .optimized (.ok report'))] t' ∧
      t.policy = t'.policy ∧ t.target = t'.target ∧ t.epoch = t'.epoch := by
  have hbuilt : FromConfig FileTree singleConfig singleTrainer :=
    fromConfig_atStart validate_singleConfig rfl rfl
  have hbuilt' : FromConfig FileTree hintedConfig (atStart hintedConfig singleTrainer.policy) :=
    fromConfig_atStart validate_hintedConfig rfl rfl
  obtain ⟨report, t, hrun, _⟩ :=
    exists_executed_run (by decide) hbuilt rfl rfl pairTransition rfl .empty
  obtain ⟨report', t', hrun', _⟩ :=
    exists_executed_run (by decide) hbuilt' rfl rfl { pairTransition with probability := 0.25 } rfl
      .empty
  have htogether : BuiltTogether FileTree singleConfig hintedConfig singleTrainer
      (atStart hintedConfig singleTrainer.policy) := by
    have hsnapshot : SameSnapshot singleConfig FileTree.empty FileTree.empty :=
      fun hload => nomatch hload
    exact .described hsnapshot (ofConfig_eq_of_cold validate_singleConfig rfl rfl _)
      (ofConfig_eq_of_cold validate_hintedConfig rfl rfl _)
  have hconfig : singleConfig.Resembles hintedConfig := rfl
  have hpush : (Operation.push pairTransition).Resembles
      (.push { pairTransition with probability := 0.25 }) :=
    .push (evidence_eq_iff.2 ⟨rfl, rfl⟩)
  obtain ⟨_, hpolicy, htarget, hepoch, _⟩ :=
    hints_do_not_interfere hconfig htogether hrun hrun' (.cons hpush (.cons (.same _) .nil))
  exact ⟨report, report', t, t', hrun, hrun', hpolicy, htarget, hepoch⟩

end Trainer

end DeferredReward
