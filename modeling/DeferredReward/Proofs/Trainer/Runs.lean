import DeferredReward.Proofs.Fault
import DeferredReward.Trainer.Step

/-!
# Runs of a trainer

A run is what callers can make of a trainer: any operations in any order, each
with the answer it got. The snapshots are kept in a store with states of any
type, which answers as it likes and may be in any state when an operation
begins, so that every theorem about runs holds whatever becomes of the files.

`Performs` says what each operation can do to the trainer. It does not mention
the store: a checkpoint has no influence on the trainer.

Main statements: `performs_of_perform`, `Run.invariant`, `Run.through`,
`start_of_fromConfig`, `start_of_fromNetwork`.
-/

namespace DeferredReward

/-- What a caller can ask of a trainer. -/
inductive Operation (α : Type) where
  /-- The probability for an observation. -/
  | predict (features : Array α)
  /-- One more staged transition. -/
  | stage (transition : Transition α)
  /-- The staged rewards moved towards an outcome. -/
  | revise (outcome : α)
  /-- The staged transitions put into the memory. -/
  | commit
  /-- The staged transitions dropped. -/
  | clear
  /-- A transition put into the memory directly. -/
  | push (transition : Transition α)
  /-- A training step. -/
  | optimize
  /-- The policy's parameters saved. -/
  | save

/-- What a trainer answers. -/
inductive Answer (α : Type) where
  /-- The probability, or why there is none. -/
  | predicted (answer : Except NetworkError α)
  /-- Whether the transition is staged. -/
  | staged (answer : Except FeatureMismatch Unit)
  /-- The number of transitions put into the memory. -/
  | committed (count : Nat)
  /-- What became of the training step. -/
  | optimized (answer : Except StepError (StepReport α))
  /-- The path of the snapshot, or why there is none. -/
  | saved (answer : Except SnapshotError Path)
  /-- The operation has no answer. -/
  | done

/-- The report of a step without what became of a checkpoint. -/
def StepReport.progress {α : Type} : StepReport α → Progress α
  | skipped available required => .skipped available required
  | executed epoch loss _ => .executed epoch loss

/-- Whether the outcome is that of an executed step. -/
def Progress.isExecuted {α : Type} : Except StepError (Progress α) → Bool
  | .ok (.executed ..) => true
  | _ => false

/-- Whether the answer is that of an executed step. -/
def Answer.isExecuted {α : Type} : Answer α → Bool
  | optimized (.ok (.executed ..)) => true
  | _ => false

/-- Whatever became of a checkpoint, the outcome tells whether the step was executed. -/
theorem Answer.isExecuted_optimized {α : Type} (answer : Except StepError (StepReport α)) :
    (optimized answer).isExecuted = Progress.isExecuted (answer.map StepReport.progress) := by
  rcases answer with _ | _ | _ <;> rfl

/-- Operations with their answers, the first one first. -/
abbrev History (α : Type) := List (Operation α × Answer α)

/-- The number of executed steps. -/
def History.executed {α : Type} (history : History α) : Nat :=
  history.countP fun entry => entry.2.isExecuted

theorem History.executed_append {α : Type} (history : History α) (op : Operation α)
    (answer : Answer α) : History.executed (history ++ [(op, answer)]) =
      history.executed + if answer.isExecuted then 1 else 0 := by
  rw [executed, List.countP_append, List.countP_singleton]
  rfl

namespace Trainer

variable {ν α σ : Type}

/-- A transition is staged when the staging area accepts it. -/
theorem stage_eq_ok_iff {t t' : Trainer ν α} {transition : Transition α} :
    t.stage transition = .ok t' ↔
      ∃ staging, t.staging.stage transition = .ok staging ∧ t' = { t with staging } := by
  constructor
  · intro h
    obtain ⟨staging, hstaging, h⟩ := exists_of_bind_eq_ok h
    cases h
    exact ⟨staging, hstaging, rfl⟩
  · rintro ⟨staging, hstaging, rfl⟩
    exact bind_eq_of_ok hstaging

/-- A transition is refused when the staging area refuses it. -/
theorem stage_eq_error {t : Trainer ν α} {transition : Transition α} {cause : FeatureMismatch}
    (h : t.staging.stage transition = .error cause) : t.stage transition = .error cause := by
  rw [stage, h]
  rfl

variable [Analysis α] [Trainable ν α]

/-- The operation carried out: its answer and the trainer after it. -/
def perform {m : Type → Type} [Monad m] [SnapshotStore m α] (t : Trainer ν α) :
    Operation α → m (Except Fault (Answer α × Trainer ν α))
  | .predict features => return (t.predict features).map fun answer => (.predicted answer, t)
  | .stage transition => return .ok (match t.stage transition with
    | .ok t => (.staged (.ok ()), t)
    | .error cause => (.staged (.error cause), t))
  | .revise outcome => return .ok (.done, t.revise outcome)
  | .commit => return .ok (.committed t.commit.1, t.commit.2)
  | .clear => return .ok (.done, t.clear)
  | .push transition => return .ok (.done, t.push transition)
  | .optimize => do
    match ← t.optimize with
    | .error fault => return .error fault
    | .ok (answer, t) => return .ok (.optimized answer, t)
  | .save => do return .ok (.saved (← t.save), t)

/-- What an operation can do: the answers and the trainers it can lead to. -/
inductive Performs (t : Trainer ν α) : Operation α → Answer α → Trainer ν α → Prop where
  /-- A prediction leaves the trainer as it is. -/
  | predict {features : Array α} {answer : Except NetworkError α}
      (h : t.predict features = .ok answer) :
      Performs t (.predict features) (.predicted answer) t
  /-- A transition that suits the staged ones is staged. -/
  | stage {transition : Transition α} {t' : Trainer ν α} (h : t.stage transition = .ok t') :
      Performs t (.stage transition) (.staged (.ok ())) t'
  /-- A transition that does not leaves the trainer as it is. -/
  | refuse {transition : Transition α} {cause : FeatureMismatch}
      (h : t.stage transition = .error cause) :
      Performs t (.stage transition) (.staged (.error cause)) t
  /-- A revision always succeeds. -/
  | revise (outcome : α) : Performs t (.revise outcome) .done (t.revise outcome)
  /-- A commit always succeeds. -/
  | commit : Performs t .commit (.committed t.commit.1) t.commit.2
  /-- Clearing always succeeds. -/
  | clear : Performs t .clear .done t.clear
  /-- A push always succeeds. -/
  | push (transition : Transition α) : Performs t (.push transition) .done (t.push transition)
  /-- A training step does what it does without its checkpoint. -/
  | optimize {answer : Except StepError (StepReport α)} {t' : Trainer ν α}
      (h : t.learn = .ok (answer.map StepReport.progress, t')) :
      Performs t .optimize (.optimized answer) t'
  /-- Saving leaves the trainer as it is. -/
  | save (answer : Except SnapshotError Path) : Performs t .save (.saved answer) t

section Store

variable [SnapshotStore (StateM σ) α]

/-- A computation goes on with the result and the store of its first step. -/
theorem run_bind {β γ : Type} (first : StateM σ β) (next : β → StateM σ γ) (store : σ) :
    (first >>= next).run store = (next (first.run store).1).run (first.run store).2 := rfl

/-- A step learns what it learns whether or not a checkpoint is due. -/
theorem learn_of_optimize {t t' : Trainer ν α} {answer : Except StepError (StepReport α)}
    {store store' : σ}
    (h : (t.optimize : StateM σ _).run store = (.ok (answer, t'), store')) :
    t.learn = .ok (answer.map StepReport.progress, t') := by
  unfold optimize at h
  cases hlearn : t.learn with
  | error fault =>
    rw [hlearn] at h
    cases h
  | ok result =>
    rw [hlearn] at h
    obtain ⟨_ | _ | ⟨epoch, loss⟩, after⟩ := result
    · cases h
      rfl
    · cases h
      rfl
    · -- Only an executed step asks for a checkpoint, which leaves the trainer alone.
      dsimp only at h
      cases hdue : after.checkpointDue with
      | error fault =>
        rw [hdue] at h
        cases h
      | ok due =>
        rw [hdue] at h
        cases due <;>
        · cases h
          rfl

/-- An operation that meets no fault does one of the things it can do. -/
theorem performs_of_perform {t t' : Trainer ν α} {op : Operation α} {answer : Answer α}
    {store store' : σ}
    (h : (t.perform op : StateM σ _).run store = (.ok (answer, t'), store')) :
    Performs t op answer t' := by
  unfold perform at h
  cases op with
  | predict features =>
    dsimp only at h
    cases hpredict : t.predict features with
    | error fault =>
      rw [hpredict] at h
      cases h
    | ok predicted =>
      rw [hpredict] at h
      cases h
      exact .predict hpredict
  | stage transition =>
    dsimp only at h
    cases hstage : t.stage transition with
    | error cause =>
      rw [hstage] at h
      cases h
      exact .refuse hstage
    | ok staged =>
      rw [hstage] at h
      cases h
      exact .stage hstage
  | revise outcome =>
    cases h
    exact .revise outcome
  | commit =>
    cases h
    exact .commit
  | clear =>
    cases h
    exact .clear
  | push transition =>
    cases h
    exact .push transition
  | optimize =>
    rw [run_bind] at h
    cases hoptimize : (t.optimize : StateM σ _).run store with
    | mk result after =>
      rw [hoptimize] at h
      obtain _ | ⟨report, trained⟩ := result
      · cases h
      · cases h
        exact .optimize (learn_of_optimize hoptimize)
  | save =>
    cases h
    exact .save _

/-- The histories that lead from one trainer to another. The store may have
changed in any way between two operations. -/
inductive Run (σ : Type) [SnapshotStore (StateM σ) α] (first : Trainer ν α) :
    History α → Trainer ν α → Prop where
  /-- Nothing has been asked yet. -/
  | start : Run σ first [] first
  /-- One more operation. -/
  | next {history : History α} {t t' : Trainer ν α} {op : Operation α} {answer : Answer α}
      (run : Run σ first history t)
      (h : ∃ store store', (t.perform op : StateM σ _).run store = (.ok (answer, t'), store')) :
      Run σ first (history ++ [(op, answer)]) t'

/-- What holds at first and is kept by everything that operations can do holds
after every run. -/
theorem Run.invariant {first t : Trainer ν α} {history : History α}
    (run : Run σ first history t) (holds : History α → Trainer ν α → Prop)
    (hstart : holds [] first)
    (hnext : ∀ {history t op answer t'}, holds history t → Performs t op answer t' →
      holds (history ++ [(op, answer)]) t') : holds history t := by
  induction run with
  | start => exact hstart
  | next _ h ih =>
    obtain ⟨store, store', h⟩ := h
    exact hnext ih (performs_of_perform h)

/-- One run after another is a run. -/
theorem Run.trans {first t t' : Trainer ν α} {history later : History α}
    (run : Run σ first history t) (run' : Run σ t later t') :
    Run σ first (history ++ later) t' := by
  induction run' with
  | start =>
    rw [List.append_nil]
    exact run
  | next _ h ih =>
    rw [← List.append_assoc]
    exact .next ih h

/-- A run can be interrupted anywhere. -/
theorem Run.split {first t : Trainer ν α} {history later : History α}
    (run : Run σ first (history ++ later) t) :
    ∃ between, Run σ first history between ∧ Run σ between later t := by
  -- By induction on the run, whose last operation is the last one of the later part.
  generalize hwhole : history ++ later = whole at run
  induction run generalizing later with
  | start =>
    obtain ⟨rfl, rfl⟩ := List.append_eq_nil_iff.1 hwhole
    exact ⟨first, .start, .start⟩
  | @next earlier t t' op answer run h ih =>
    rcases List.eq_nil_or_concat later with rfl | ⟨rest, last, rfl⟩
    · rw [List.append_nil] at hwhole
      subst hwhole
      exact ⟨t', .next run h, .start⟩
    · rw [List.concat_eq_append, ← List.append_assoc] at hwhole
      obtain ⟨hearlier, hlast⟩ := List.append_inj' hwhole rfl
      obtain rfl := List.singleton_inj.1 hlast
      obtain ⟨between, hbefore, hafter⟩ := ih hearlier
      rw [List.concat_eq_append]
      exact ⟨between, hbefore, .next hafter h⟩

/-- A run ends with its last operation. -/
theorem Run.last {first t : Trainer ν α} {history : History α} {op : Operation α}
    {answer : Answer α} (run : Run σ first (history ++ [(op, answer)]) t) :
    ∃ before, Run σ first history before ∧
      ∃ store store', (before.perform op : StateM σ _).run store = (.ok (answer, t), store') := by
  generalize hwhole : history ++ [(op, answer)] = whole at run
  cases run with
  | start => exact absurd hwhole (List.append_ne_nil_of_right_ne_nil _ (List.cons_ne_nil _ _))
  | next run h =>
    obtain ⟨rfl, hlast⟩ := List.append_inj' hwhole rfl
    cases List.singleton_inj.1 hlast
    exact ⟨_, run, h⟩

/-- A run goes through each of its operations. -/
theorem Run.through {first t : Trainer ν α} {history later : History α} {op : Operation α}
    {answer : Answer α} (run : Run σ first (history ++ (op, answer) :: later) t) :
    ∃ before after, Run σ first history before ∧ Performs before op answer after ∧
      Run σ after later t := by
  have hsplit : history ++ (op, answer) :: later = history ++ [(op, answer)] ++ later := by
    rw [List.append_assoc, List.singleton_append]
  rw [hsplit] at run
  obtain ⟨after, hbefore, hafter⟩ := run.split
  obtain ⟨before, hhistory, _, _, hstep⟩ := hbefore.last
  exact ⟨before, after, hhistory, performs_of_perform hstep, hafter⟩

/-- The trainer can come from this configuration. -/
def FromConfig (σ : Type) [SnapshotStore (StateM σ) α] (config : Config α)
    (t : Trainer (Network α) α) : Prop :=
  ∃ store store' : σ, (ofConfig config : StateM σ _).run store = (.ok (.ok t), store')

/-- The trainer can come from this configuration and this network. -/
def FromNetwork (σ : Type) [SnapshotStore (StateM σ) α] (config : Config α) (network : ν)
    (t : Trainer ν α) : Prop :=
  ∃ store store' : σ, (ofNetwork config network : StateM σ _).run store = (.ok (.ok t), store')

/-- A trainer is started around its network as it is given, or after a snapshot
has been put into it. -/
theorem start_of_build {config : Config α} {network : ν} {t : Trainer ν α} {store store' : σ}
    (h : (build config network : StateM σ _).run store = (.ok (.ok t), store')) :
    ∃ policy, (policy = network ∨
        ∃ given, Trainable.install network given = .ok (.ok policy)) ∧
      start config policy = .ok (.ok t) := by
  unfold build at h
  split at h
  · rename_i path _ _
    rw [run_bind] at h
    cases hload : (SnapshotStore.load path : StateM σ (Except SnapshotError (Parameters α))).run
      store with
    | mk result after =>
      rw [hload] at h
      obtain _ | parameters := result
      · cases h
      · dsimp only at h
        cases hinstall : Trainable.install network parameters with
        | error fault =>
          rw [hinstall] at h
          cases h
        | ok installed =>
          rw [hinstall] at h
          obtain _ | policy := installed
          · cases h
          · exact ⟨policy, .inr ⟨parameters, hinstall⟩, congrArg Prod.fst h⟩
  · exact ⟨network, .inl rfl, congrArg Prod.fst h⟩

/-- A trainer around a given network comes from an accepted configuration. -/
theorem start_of_fromNetwork {config : Config α} {network : ν} {t : Trainer ν α}
    (h : FromNetwork σ config network t) :
    config.validate = .ok () ∧ ∃ policy, (policy = network ∨
        ∃ given, Trainable.install network given = .ok (.ok policy)) ∧
      start config policy = .ok (.ok t) := by
  obtain ⟨store, store', h⟩ := h
  unfold ofNetwork at h
  split at h
  · cases h
  · rename_i hvalid
    exact ⟨hvalid, start_of_build h⟩

/-- A trainer of a configuration alone comes from one that is accepted and tells
the number of features, and its network is the predictor of that configuration. -/
theorem start_of_fromConfig {config : Config α} {t : Trainer (Network α) α}
    (h : FromConfig σ config t) :
    config.validate = .ok () ∧ ∃ inputSize, config.inputSize = some inputSize ∧
      ∃ network policy, network = (Network.drawPredictor inputSize.toNat
        (config.hiddenSizes.map UInt64.toNat) config.hiddenActivation (.ofSeed config.seed)).1 ∧
      (policy = network ∨ ∃ given, Trainable.install network given = .ok (.ok policy)) ∧
      start config policy = .ok (.ok t) := by
  obtain ⟨store, store', h⟩ := h
  unfold ofConfig at h
  split at h
  · cases h
  · rename_i hvalid
    split at h
    · cases h
    · rename_i inputSize hinputSize
      obtain ⟨policy, hpolicy, hstart⟩ := start_of_build h
      exact ⟨hvalid, inputSize, hinputSize, _, policy, rfl, hpolicy, hstart⟩

end Store

end Trainer

end DeferredReward
