import DeferredReward.Proofs.Trainer.Start

/-!
# Training steps are atomic

A step that is skipped has done nothing at all, and a step that fails has
learned nothing: parameters, moments, counts and transitions are those before
it. This holds after every run of a trainer, over every stack of layers and
with transitions of any widths in the memory, because the two networks never
lose their common form.

Main statement: `optimize_atomic`.
-/

namespace DeferredReward.Trainer

variable {α σ : Type} [Analysis α] [SnapshotStore (StateM σ) α]

/-- A step without anything to save leaves the store as it is. -/
theorem optimize_of_learn_error {t t' : Trainer (Network α) α} {cause : StepError}
    (h : t.learn = .ok (.error cause, t')) (store : σ) :
    (t.optimize : StateM σ _).run store = (.ok (.error cause, t'), store) := by
  unfold optimize
  rw [h]
  rfl

/-- With fewer transitions than a batch a step is skipped and has no effect. -/
theorem optimize_of_size_lt {t : Trainer (Network α) α}
    (h : t.memory.size < t.config.batchSize.toNat) (store : σ) :
    (t.optimize : StateM σ _).run store =
      (.ok (.ok (.skipped t.memory.size t.config.batchSize.toNat), t), store) := by
  have hlearn : t.learn = .ok (.ok (.skipped t.memory.size t.config.batchSize.toNat), t) := by
    unfold learn
    exact if_pos h
  unfold optimize
  rw [hlearn]
  rfl

/-- After any run, a step without enough transitions changes nothing, not even
the generator, and a step that fails changes at most the generator and what
passes leave in the policy. -/
theorem optimize_atomic {config : Config α} {first t : Trainer (Network α) α}
    {history : History α} (hbuilt : Built σ config first) (hrun : Run σ first history t)
    (store : σ) :
    (t.memory.size < config.batchSize.toNat →
      (t.optimize : StateM σ _).run store =
        (.ok (.ok (.skipped t.memory.size config.batchSize.toNat), t), store)) ∧
    ∀ cause t' store',
      (t.optimize : StateM σ _).run store = (.ok (.error cause, t'), store') →
        Untrained t t' ∧ t'.policy.parameters = t.policy.parameters ∧ store' = store := by
  have hstarted := started_of_built hbuilt
  have hkin := kindred_of_run hstarted.form hrun
  have hconfig : t.config = config := hkin.config.trans hstarted.config_eq
  constructor
  · intro hfew
    rw [← hconfig] at hfew ⊢
    exact optimize_of_size_lt hfew store
  · intro cause t' store' hstep
    have hlearn := learn_of_optimize hstep
    rw [optimize_of_learn_error hlearn] at hstep
    have hform : t.target.form = t.policy.form := hkin.target.trans hkin.policy.symm
    obtain ⟨_, hskipped, _⟩ | ⟨_, _, _, hsame⟩ | ⟨_, _, _, _, _, _, hexecuted⟩ :=
      learn_cases hform hlearn
    · cases hskipped
    · exact ⟨hsame, hsame.parameters, (congrArg Prod.snd hstep).symm⟩
    · cases hexecuted

/-- Before any push a step is skipped; with a transition of three features in
the memory it fails and leaves everything to the next one. -/
theorem optimize_atomic_pairTrainer :
    (pairTrainer.optimize : StateM FileTree _).run .empty =
      (.ok (.ok (.skipped 0 1), pairTrainer), .empty) ∧
    ∃ cause t', ((pairTrainer.push wideTransition).optimize : StateM FileTree _).run .empty =
        (.ok (.error cause, t'), .empty) ∧
      Untrained (pairTrainer.push wideTransition) t' := by
  have hpush : Run FileTree pairTrainer [(.push wideTransition, .done)]
      (pairTrainer.push wideTransition) := .next .start ⟨.empty, .empty, rfl⟩
  have hfails : ((((pairTrainer.push wideTransition).optimize : StateM FileTree _).run
      .empty).1.toOption.map fun result => result.1.toOption.isNone) = some true := by
    decide +kernel
  refine ⟨(optimize_atomic built_pairTrainer .start .empty).1 (by decide), ?_⟩
  cases hrun : ((pairTrainer.push wideTransition).optimize : StateM FileTree _).run .empty with
  | mk result tree =>
    rw [hrun] at hfails
    obtain fault | ⟨cause | report, t'⟩ := result
    · cases hfails
    · obtain ⟨hsame, _, rfl⟩ := (optimize_atomic built_pairTrainer hpush .empty).2 _ t' _ hrun
      exact ⟨cause, t', rfl, hsame⟩
    · cases hfails

end DeferredReward.Trainer
