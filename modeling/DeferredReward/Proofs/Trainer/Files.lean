import DeferredReward.Proofs.Fault
import DeferredReward.Proofs.Trainer.Runs

/-!
# What files decide

The files decide what is told about checkpoints and snapshots, and nothing else.
An operation carried out is the operation with the fate of its files given
beforehand; whatever that fate is, the rest of the answer and the trainer that
is left are the same.

Main statements: `exists_performWith`, `perform_of_stores`, `runs_of_stores`.
-/

namespace DeferredReward

/-- The answer without what it tells about files. -/
def Answer.withoutFiles {α : Type} : Answer α → Answer α
  | optimized (.ok (.executed epoch loss _)) => optimized (.ok (.executed epoch loss none))
  | saved _ => done
  | answer => answer

/-- The answers of a history without what they tell about files. -/
def History.outcomes {α : Type} (history : History α) : List (Answer α) :=
  history.map fun entry => entry.2.withoutFiles

theorem History.outcomes_append {α : Type} (history : History α) (op : Operation α)
    (answer : Answer α) :
    History.outcomes (history ++ [(op, answer)]) = history.outcomes ++ [answer.withoutFiles] := by
  rw [outcomes, List.map_append]
  rfl

namespace Trainer

variable {ν α σ σ' : Type}

/-- The same result, with related trainers. -/
def Alike {β : Type} (related : Trainer ν α → Trainer ν α → Prop) (r r' : β × Trainer ν α) : Prop :=
  r.1 = r'.1 ∧ related r.2 r'.2

/-- The same answer apart from files, with related trainers. -/
def AnswersAlike (related : Trainer ν α → Trainer ν α → Prop) (r r' : Answer α × Trainer ν α) :
    Prop :=
  r.1.withoutFiles = r'.1.withoutFiles ∧ related r.2 r'.2

variable [Analysis α] [Trainable ν α] {t t' : Trainer ν α}

/-- The outcome of a step whose checkpoint, if one is due, turns out as given. -/
def optimizedWith (t : Trainer ν α) (checkpoint : Checkpoint) :
    Except Fault (Except StepError (StepReport α) × Trainer ν α) :=
  match t.learn with
  | .error fault => .error fault
  | .ok (.error cause, t) => .ok (.error cause, t)
  | .ok (.ok (.skipped available required), t) => .ok (.ok (.skipped available required), t)
  | .ok (.ok (.executed epoch loss), t) => t.checkpointDue.map fun due =>
    (.ok (.executed epoch loss (if due then some checkpoint else none)), t)

/-- When learning agrees and leaves trainers that agree on whether a checkpoint can be due, steps
agree however their checkpoints turn out. -/
theorem optimizedWith_alike {related : Trainer ν α → Trainer ν α → Prop}
    (hlearn : SameOutcome (Alike related) t.learn t'.learn)
    (hdue : ∀ t t', related t t' → SameOutcome (fun _ _ => True) t.checkpointDue t'.checkpointDue)
    (checkpoint checkpoint' : Checkpoint) :
    SameOutcome (fun r r' => AnswersAlike related (.optimized r.1, r.2) (.optimized r'.1, r'.2))
      (t.optimizedWith checkpoint) (t'.optimizedWith checkpoint') := by
  unfold optimizedWith
  generalize t.learn = learned at hlearn
  generalize t'.learn = learned' at hlearn
  cases hlearn with
  | fault cause => exact .fault cause
  | @result r r' h =>
    obtain ⟨progress, t⟩ := r
    obtain ⟨progress', t'⟩ := r'
    obtain ⟨rfl, hlearned⟩ := h
    rcases progress with cause | ⟨available, required⟩ | ⟨epoch, loss⟩
    · exact .result ⟨rfl, hlearned⟩
    · exact .result ⟨rfl, hlearned⟩
    · exact (hdue t t' hlearned).map fun _ _ _ => ⟨rfl, hlearned⟩

/-- What an operation does when a checkpoint, if one is due, and a snapshot, if one is asked for,
turn out as given. -/
def performWith (t : Trainer ν α) (checkpoint : Checkpoint) (saved : Except SnapshotError Path) :
    Operation α → Except Fault (Answer α × Trainer ν α)
  | .predict features => (t.predict features).map fun answer => (.predicted answer, t)
  | .stage transition => .ok (match t.stage transition with
    | .ok t => (.staged (.ok ()), t)
    | .error cause => (.staged (.error cause), t))
  | .revise outcome => .ok (.done, t.revise outcome)
  | .commit => .ok (.committed t.commit.1, t.commit.2)
  | .clear => .ok (.done, t.clear)
  | .push transition => .ok (.done, t.push transition)
  | .optimize => (t.optimizedWith checkpoint).map fun r => (.optimized r.1, r.2)
  | .save => .ok (.saved saved, t)

/-- Of one trainer the files change nothing but what is told about them. -/
theorem performWith_of_files (t : Trainer ν α) (checkpoint checkpoint' : Checkpoint)
    (saved saved' : Except SnapshotError Path) (op : Operation α) :
    SameOutcome (AnswersAlike Eq) (t.performWith checkpoint saved op)
      (t.performWith checkpoint' saved' op) := by
  cases op with
  | predict | stage | revise | commit | clear | push =>
    exact (SameOutcome.of_eq rfl).imp fun _ _ heq => heq ▸ ⟨rfl, rfl⟩
  | save => exact .result ⟨rfl, rfl⟩
  | optimize =>
    have hlearn : SameOutcome (Alike Eq) t.learn t.learn :=
      (SameOutcome.of_eq rfl).imp fun _ _ heq => heq ▸ ⟨rfl, rfl⟩
    refine (optimizedWith_alike hlearn ?_ checkpoint checkpoint').map fun _ _ h => h
    rintro t _ rfl
    exact (SameOutcome.of_eq rfl).imp fun _ _ _ => trivial

section Store

variable [SnapshotStore (StateM σ) α]

/-- The files decide how a checkpoint turns out and nothing else of a step. -/
theorem exists_optimizedWith (t : Trainer ν α) (store : σ) : ∃ checkpoint,
    ((t.optimize : StateM σ _).run store).1 = t.optimizedWith checkpoint := by
  unfold optimize optimizedWith
  cases t.learn with
  | error fault => exact ⟨.saved default, rfl⟩
  | ok result =>
    obtain ⟨cause | ⟨available, required⟩ | ⟨epoch, loss⟩, t⟩ := result
    · exact ⟨.saved default, rfl⟩
    · exact ⟨.saved default, rfl⟩
    · dsimp only
      cases t.checkpointDue with
      | error fault => exact ⟨.saved default, rfl⟩
      | ok due =>
        cases due with
        | false => exact ⟨.saved default, rfl⟩
        | true => exact ⟨_, rfl⟩

/-- The files decide what is told about them and nothing else of an operation. -/
theorem exists_performWith (t : Trainer ν α) (op : Operation α) (store : σ) :
    ∃ checkpoint saved,
      ((t.perform op : StateM σ _).run store).1 = t.performWith checkpoint saved op := by
  have hpath : Except SnapshotError Path := .ok default
  cases op with
  | predict | stage | revise | commit | clear | push => exact ⟨.saved default, hpath, rfl⟩
  | save => exact ⟨.saved default, ((t.save : StateM σ _).run store).1, rfl⟩
  | optimize =>
    obtain ⟨checkpoint, hstep⟩ := exists_optimizedWith t store
    refine ⟨checkpoint, hpath, ?_⟩
    rw [perform, run_bind, performWith, ← hstep]
    cases (t.optimize : StateM σ _).run store with
    | mk result after => cases result <;> rfl

/-- Of one trainer two stores change nothing but what is told about files. -/
theorem perform_of_stores [SnapshotStore (StateM σ') α] (t : Trainer ν α) (op : Operation α)
    (store : σ) (store' : σ') :
    SameOutcome (AnswersAlike Eq) ((t.perform op : StateM σ _).run store).1
      ((t.perform op : StateM σ' _).run store').1 := by
  obtain ⟨checkpoint, saved, hperform⟩ := exists_performWith t op store
  obtain ⟨checkpoint', saved', hperform'⟩ := exists_performWith t op store'
  rw [hperform, hperform']
  exact performWith_of_files t checkpoint checkpoint' saved saved' op

/-- Without operations a run ends where it starts. -/
theorem Run.eq_of_nil {first t : Trainer ν α} (run : Run σ first [] t) : t = first := by
  generalize hnil : ([] : History α) = history at run
  cases run with
  | start => rfl
  | next => exact absurd hnil.symm (List.append_ne_nil_of_right_ne_nil _ (List.cons_ne_nil _ _))

/-- Two runs of one trainer that is asked the same get the same answers, apart from files, and leave
the same trainer, whatever becomes of the files in either. -/
theorem runs_of_stores [SnapshotStore (StateM σ') α] {first t t' : Trainer ν α}
    {history history' : History α} (hrun : Run σ first history t)
    (hrun' : Run σ' first history' t')
    (hops : history.map Prod.fst = history'.map Prod.fst) :
    history.outcomes = history'.outcomes ∧ t = t' := by
  induction hrun generalizing history' t' with
  | start =>
    obtain rfl := List.map_eq_nil_iff.1 hops.symm
    exact ⟨rfl, hrun'.eq_of_nil.symm⟩
  | @next history before t op answer run hstep ih =>
    rw [List.map_append, List.map_singleton] at hops
    obtain ⟨earlier, last, rfl, hearlier, hlast⟩ := List.map_eq_append_iff.1 hops.symm
    obtain ⟨⟨op', answer'⟩, rfl, rfl⟩ := List.map_eq_singleton_iff.1 hlast
    obtain ⟨before', hrun', store', _, hstep'⟩ := hrun'.last
    obtain ⟨store, _, hstep⟩ := hstep
    obtain ⟨houtcomes, rfl⟩ := ih hrun' hearlier.symm
    have halike := perform_of_stores before op' store store'
    rw [hstep, hstep'] at halike
    cases halike with
    | result halike =>
      rw [History.outcomes_append, History.outcomes_append, houtcomes, halike.1]
      exact ⟨rfl, halike.2⟩

end Store

end Trainer

end DeferredReward
