import DeferredReward.Proofs.Trainer.Start

/-!
# The executed steps of a run

What a trainer has learned are the parameters of its networks, the state of its
optimizer and its count of epochs. Executed steps change all of it and nothing
else changes any of it, so that a property of what was learned has to be shown
of executed steps only. The milestones of a run are the trainers right after its
executed steps; every run has them.

Main statements: `learning_cases`, `exists_milestones`, `Milestones.invariant`,
`epoch_of_run`.
-/

namespace DeferredReward.Trainer

variable {α σ : Type} [Analysis α]

/-- The trainers have learned the same. -/
structure Unmoved (t t' : Trainer (Network α) α) : Prop where
  policy : t'.policy.parameters = t.policy.parameters
  target : t'.target.parameters = t.target.parameters
  optimizer : t'.optimizer = t.optimizer
  epoch : t'.epoch = t.epoch

/-- From `t` to `t'` a step was executed that moved the policy against gradients. -/
structure Advances (t : Trainer (Network α) α) (gradients : Parameters α)
    (t' : Trainer (Network α) α) : Prop where
  /-- The gradients are those of the backward pass after clamping. -/
  clamped : ∃ raw : Parameters α, raw.clampWithin gradientBound = .ok gradients
  /-- There was a gradient for every parameter. -/
  suited : t.policy.parameters.mismatch? gradients = none
  /-- One more step could be counted. -/
  countable : t.optimizer.steps ≠ Int32.maxValue
  /-- The moments had the shapes of the parameters. -/
  unreshaped : t.optimizer.reshaped? t.policy.parameters = none
  optimizer : t'.optimizer = t.optimizer.after t.policy.parameters gradients
  policy : t'.policy.parameters = t.optimizer.moved t.policy.parameters gradients
  target : Parameters.blend t'.policy.parameters t.target.parameters t.config.blendWeight =
    .ok t'.target.parameters
  epoch : t'.epoch = t.epoch + 1

/-- The step that leaves the trainers with what they have learned counts itself
at last. -/
theorem Descends.advances {t moved : Trainer (Network α) α} {gradients : Parameters α}
    (h : Descends t gradients moved)
    (hclamped : ∃ raw : Parameters α, raw.clampWithin gradientBound = .ok gradients) :
    Advances t gradients { moved with epoch := moved.epoch + 1 } where
  clamped := hclamped
  suited := h.suited
  countable := h.countable
  unreshaped := h.unreshaped
  optimizer := h.optimizer
  policy := h.policyParameters
  target := h.targetParameters
  epoch := congrArg (· + 1) h.epoch

/-- An operation changes what was learned exactly when it is an executed step. -/
theorem learning_cases {t t' : Trainer (Network α) α} {op : Operation α} {answer : Answer α}
    (hform : t.target.form = t.policy.form) (h : Performs t op answer t') :
    (answer.isExecuted = false ∧ Unmoved t t') ∨
      (answer.isExecuted = true ∧ ∃ gradients, Advances t gradients t') := by
  cases h with
  | predict | refuse | revise | commit | clear | push | save =>
    exact .inl ⟨rfl, rfl, rfl, rfl, rfl⟩
  | stage h =>
    obtain ⟨staging, _, rfl⟩ := stage_eq_ok_iff.1 h
    exact .inl ⟨rfl, rfl, rfl, rfl, rfl⟩
  | optimize h =>
    rw [Answer.isExecuted_optimized]
    obtain ⟨_, hskipped, rfl⟩ | ⟨_, _, hfailed, hsame⟩ |
      ⟨_, gradients, _, _, hclamped, hdescends, rfl, hexecuted⟩ := learn_outcome hform h
    · rw [hskipped]
      exact .inl ⟨rfl, rfl, rfl, rfl, rfl⟩
    · rw [hfailed]
      have htarget := congrArg Network.parameters hsame.target
      exact .inl ⟨rfl, hsame.parameters, htarget, hsame.optimizer, hsame.epoch⟩
    · rw [hexecuted]
      exact .inr ⟨rfl, gradients, hdescends.advances hclamped⟩

/-- The epoch is counted along with the steps of the optimizer, as long as these
can be counted. -/
theorem Advances.toNat_epoch {t t' : Trainer (Network α) α} {gradients : Parameters α}
    (h : Advances t gradients t') (hcount : t.optimizer.steps.toInt = t.epoch.toNat) :
    t'.optimizer.steps.toInt = t'.epoch.toNat ∧ t'.epoch.toNat = t.epoch.toNat + 1 := by
  have hlimit := t.optimizer.steps.toInt_lt
  have hsteps : t'.optimizer.steps.toInt = t.optimizer.steps.toInt + 1 := by
    rw [h.optimizer]
    exact Optimizer.toInt_steps_after h.countable _ _
  have hepoch : t'.epoch.toNat = t.epoch.toNat + 1 := by
    rw [h.epoch, UInt64.toNat_add, UInt64.toNat_one]
    omega
  omega

section Store

variable [SnapshotStore (StateM σ) α]

/-- The histories that lead from one trainer to another, with the trainers right
after the executed steps on the way. -/
inductive Milestones (σ : Type) [SnapshotStore (StateM σ) α] (first : Trainer (Network α) α) :
    History α → List (Trainer (Network α) α) → Trainer (Network α) α → Prop where
  /-- Nothing has been asked yet. -/
  | start : Milestones σ first [] [] first
  /-- One more operation. -/
  | next {history : History α} {passed : List (Trainer (Network α) α)}
      {t t' : Trainer (Network α) α} {op : Operation α} {answer : Answer α}
      (run : Milestones σ first history passed t)
      (h : ∃ store store', (t.perform op : StateM σ _).run store = (.ok (answer, t'), store')) :
      Milestones σ first (history ++ [(op, answer)])
        (if answer.isExecuted then passed ++ [t'] else passed) t'

/-- Every run has milestones. -/
theorem exists_milestones {first t : Trainer (Network α) α} {history : History α}
    (run : Run σ first history t) : ∃ passed, Milestones σ first history passed t := by
  induction run with
  | start => exact ⟨[], .start⟩
  | next _ h ih =>
    obtain ⟨passed, hpassed⟩ := ih
    exact ⟨_, .next hpassed h⟩

namespace Milestones

variable {first t : Trainer (Network α) α} {history : History α}
  {passed : List (Trainer (Network α) α)}

/-- A history with milestones is a run. -/
theorem run (h : Milestones σ first history passed t) : Run σ first history t := by
  induction h with
  | start => exact .start
  | next _ h ih => exact .next ih h

/-- There is one milestone for each executed step. -/
theorem length_eq (h : Milestones σ first history passed t) :
    passed.length = history.executed := by
  induction h with
  | start => rfl
  | next _ _ ih =>
    rw [History.executed_append, ← ih]
    split
    · rw [List.length_append, List.length_singleton]
    · rfl

/-- What holds at first, depends on what was learned only and is kept by executed
steps holds after every run. -/
theorem invariant (h : Milestones σ first history passed t)
    (hform : first.target.form = first.policy.form)
    (holds : List (Trainer (Network α) α) → Trainer (Network α) α → Prop)
    (hstart : holds [] first)
    (hidle : ∀ {passed t t'}, holds passed t → Unmoved t t' → holds passed t')
    (hadvance : ∀ {passed t gradients t'}, Kindred first t → Kindred first t' →
      holds passed t → Advances t gradients t' → holds (passed ++ [t']) t') :
    holds passed t := by
  induction h with
  | start => exact hstart
  | next hbefore h ih =>
    obtain ⟨store, store', h⟩ := h
    have hkin := kindred_of_run hform hbefore.run
    have hperforms := performs_of_perform h
    obtain ⟨hanswer, hsame⟩ | ⟨hanswer, gradients, hadvances⟩ :=
      learning_cases hkin.form hperforms
    · rw [hanswer]
      exact hidle ih hsame
    · rw [hanswer]
      exact hadvance hkin (kindred_of_performs hkin hperforms) ih hadvances

end Milestones

/-- After every run the optimizer has counted the epochs. -/
theorem steps_eq_epoch {config : Config α} {first t : Trainer (Network α) α}
    {history : History α} (hstarted : Started config first) (hrun : Run σ first history t) :
    t.optimizer.steps.toInt = t.epoch.toNat := by
  obtain ⟨passed, hpassed⟩ := exists_milestones hrun
  refine hpassed.invariant hstarted.form
    (fun _ t => t.optimizer.steps.toInt = t.epoch.toNat) ?_ ?_ ?_
  · rw [hstarted.eq]
    rfl
  · intro _ t t' hcount hsame
    rw [hsame.optimizer, hsame.epoch, hcount]
  · intro _ t gradients t' _ _ hcount hadvances
    exact (hadvances.toNat_epoch hcount).1

/-- The epoch is the number of executed steps. -/
theorem epoch_of_run {config : Config α} {first t : Trainer (Network α) α}
    {history : History α} (hstarted : Started config first) (hrun : Run σ first history t) :
    t.epoch.toNat = history.executed := by
  have hepoch := steps_eq_epoch hstarted hrun
  have hsteps := steps_of_run hstarted hrun
  omega

end Store

end DeferredReward.Trainer
