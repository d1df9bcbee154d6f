import DeferredReward.Proofs.Network.Passes
import DeferredReward.Proofs.Optimizer
import DeferredReward.Proofs.Parameters.Blend
import DeferredReward.Proofs.ReplayMemory
import DeferredReward.Trainer.Step

/-!
# What a training step can do

A step of a trainer whose networks have one form does one of three things. It
is skipped and nothing has happened; it fails and nothing has been learned; or
it is executed, which moves the policy, lets the target follow and counts. No
step fails after it has begun to change parameters.

Main statements: `learn_outcome`, `learn_cases`.
-/

namespace DeferredReward.Trainer

variable {α : Type} [Analysis α]

/-- Nothing has been learned from `t` to `t'`: they differ at most in what passes
have left in the policy and in the generator of the memory. -/
structure Untrained (t t' : Trainer (Network α) α) : Prop where
  config : t'.config = t.config
  policy : t'.policy.stripped = t.policy.stripped
  target : t'.target = t.target
  optimizer : t'.optimizer = t.optimizer
  contents : t'.memory.toList = t.memory.toList
  capacity : t'.memory.capacity = t.memory.capacity
  staging : t'.staging = t.staging
  epoch : t'.epoch = t.epoch

namespace Untrained

variable {t t' t'' : Trainer (Network α) α}

theorem refl (t : Trainer (Network α) α) : Untrained t t :=
  ⟨rfl, rfl, rfl, rfl, rfl, rfl, rfl, rfl⟩

theorem trans (h : Untrained t t') (h' : Untrained t' t'') : Untrained t t'' where
  config := h'.config.trans h.config
  policy := h'.policy.trans h.policy
  target := h'.target.trans h.target
  optimizer := h'.optimizer.trans h.optimizer
  contents := h'.contents.trans h.contents
  capacity := h'.capacity.trans h.capacity
  staging := h'.staging.trans h.staging
  epoch := h'.epoch.trans h.epoch

/-- A policy that differs in what passes have left in it. -/
theorem of_policy {policy : Network α} (h : policy.stripped = t.policy.stripped) :
    Untrained t { t with policy } :=
  ⟨rfl, h, rfl, rfl, rfl, rfl, rfl, rfl⟩

theorem form (h : Untrained t t') : t'.policy.form = t.policy.form :=
  Network.form_of_stripped h.policy

theorem parameters (h : Untrained t t') : t'.policy.parameters = t.policy.parameters :=
  Network.parameters_of_stripped h.policy

end Untrained

/-- Drawing a batch moves the generator on and learns nothing. -/
theorem untrained_draw (t : Trainer (Network α) α) : Untrained t t.draw.2 := by
  have hsample : Untrained t { t with memory := (t.memory.sample t.config.batchSize.toNat).2 } :=
    ⟨rfl, rfl, rfl, rfl, t.memory.toList_sample _, t.memory.capacity_sample _, rfl, rfl⟩
  unfold draw
  dsimp only
  split
  · exact hsample
  · split <;> exact hsample

/-- Evaluating a batch leaves the inputs of its passes in the policy and learns
nothing, whatever comes of it. The gradients that it gives have been clamped. -/
theorem evaluate_cases {t t' : Trainer (Network α) α} {features rewards : Matrix α}
    {answer : Except NetworkError (α × Parameters α)}
    (h : t.evaluate features rewards = .ok (answer, t')) :
    Untrained t t' ∧ ∀ loss gradients, answer = .ok (loss, gradients) →
      ∃ raw : Parameters α, raw.clampWithin gradientBound = .ok gradients := by
  obtain ⟨⟨predicted, forwarded⟩, hforward, h⟩ := exists_of_bind_eq_ok h
  have hpolicy := Network.stripped_of_forward hforward
  cases predicted with
  | error cause =>
    cases h
    exact ⟨.of_policy hpolicy, fun _ _ hanswer => nomatch hanswer⟩
  | ok predicted =>
    obtain ⟨ahead, _, h⟩ := exists_of_bind_eq_ok h
    cases ahead with
    | error cause =>
      cases h
      exact ⟨.of_policy hpolicy, fun _ _ hanswer => nomatch hanswer⟩
    | ok ahead =>
      obtain ⟨expected, _, h⟩ := exists_of_bind_eq_ok h
      obtain ⟨loss, _, h⟩ := exists_of_bind_eq_ok h
      obtain ⟨slope, _, h⟩ := exists_of_bind_eq_ok h
      obtain ⟨⟨gradients, backed⟩, hbackward, h⟩ := exists_of_bind_eq_ok h
      have hbacked := (Network.stripped_of_backward hbackward).trans hpolicy
      cases gradients with
      | error cause =>
        cases h
        exact ⟨.of_policy hbacked, fun _ _ hanswer => nomatch hanswer⟩
      | ok gradients =>
        obtain ⟨clamped, hclamped, h⟩ := exists_of_bind_eq_ok h
        cases h
        refine ⟨.of_policy hbacked, fun _ _ hanswer => ⟨gradients, ?_⟩⟩
        cases hanswer
        exact hclamped

/-- From `t` to `t'` the policy has been moved against gradients and the target
has been moved after it. -/
structure Descends (t : Trainer (Network α) α) (gradients : Parameters α)
    (t' : Trainer (Network α) α) : Prop where
  /-- There was a gradient for every parameter. -/
  suited : t.policy.parameters.mismatch? gradients = none
  /-- One more step could be counted. -/
  countable : t.optimizer.steps ≠ Int32.maxValue
  /-- The moments had the shapes of the parameters. -/
  unreshaped : t.optimizer.reshaped? t.policy.parameters = none
  optimizer : t'.optimizer = t.optimizer.after t.policy.parameters gradients
  policyForm : t'.policy.form = t.policy.form
  policyParameters : t'.policy.parameters = t.optimizer.moved t.policy.parameters gradients
  targetForm : t'.target.form = t.target.form
  targetParameters : Parameters.blend t'.policy.parameters t.target.parameters
    t.config.blendWeight = .ok t'.target.parameters
  config : t'.config = t.config
  contents : t'.memory.toList = t.memory.toList
  capacity : t'.memory.capacity = t.memory.capacity
  staging : t'.staging = t.staging
  epoch : t'.epoch = t.epoch

/-- What passes have left in the policy before makes no difference. -/
theorem Descends.of_untrained {t t' t'' : Trainer (Network α) α} {gradients : Parameters α}
    (h : Untrained t t') (h' : Descends t' gradients t'') : Descends t gradients t'' where
  suited := by rw [← h.parameters]; exact h'.suited
  countable := by rw [← h.optimizer]; exact h'.countable
  unreshaped := by rw [← h.optimizer, ← h.parameters]; exact h'.unreshaped
  optimizer := by rw [h'.optimizer, h.optimizer, h.parameters]
  policyForm := h'.policyForm.trans h.form
  policyParameters := by rw [h'.policyParameters, h.optimizer, h.parameters]
  targetForm := by rw [h'.targetForm, h.target]
  targetParameters := by rw [← h.target, ← h.config]; exact h'.targetParameters
  config := h'.config.trans h.config
  contents := h'.contents.trans h.contents
  capacity := h'.capacity.trans h.capacity
  staging := h'.staging.trans h.staging
  epoch := h'.epoch.trans h.epoch

/-- Once the optimizer accepts the gradients nothing can fail: what it returns
suits both networks. -/
theorem descend_of_step {t : Trainer (Network α) α} (hform : t.target.form = t.policy.form)
    {gradients moved : Parameters α} {optimizer : Optimizer α}
    (hstep : t.optimizer.step t.policy.parameters gradients = .ok (.ok moved, optimizer)) :
    ∃ t', t.descend gradients = .ok (.ok (), t') ∧ Descends t gradients t' := by
  obtain ⟨_, _, hrefused, _⟩ | ⟨hsuited, hcountable, hunreshaped, haccepted, rfl⟩ :=
    Optimizer.step_cases hstep
  · cases hrefused
  · cases haccepted
    have hmoved := Optimizer.layout_moved t.optimizer t.policy.parameters gradients
    have htarget : t.target.parameters.layout = t.policy.parameters.layout :=
      Network.layout_of_form hform
    obtain ⟨policy, hpolicy, hpolicyParameters, hpolicyForm⟩ := Network.install_of_layout hmoved
    obtain ⟨followed, hfollowed, hlayout⟩ :=
      Parameters.blend_of_layout t.config.blendWeight (hmoved.trans htarget.symm)
    have hfollows : followed.layout = t.target.parameters.layout := by
      rw [hlayout, hmoved, htarget]
    obtain ⟨target, hinstall, htargetParameters, htargetForm⟩ := Network.install_of_layout hfollows
    -- Every call that could still refuse is given parameters of the layout it asks for.
    refine ⟨{ t with
      policy := policy
      target := target
      optimizer := t.optimizer.after t.policy.parameters gradients }, ?_, ?_⟩
    · have hblend : Parameters.blend _ (Trainable.parameters t.target) _ = _ := hfollowed
      refine (bind_eq_of_ok hstep).trans ((bind_eq_of_ok hpolicy).trans ?_)
      dsimp only
      rw [hblend]
      exact bind_eq_of_ok hinstall
    · refine ⟨hsuited, hcountable, hunreshaped, rfl, hpolicyForm, hpolicyParameters, htargetForm,
        ?_, rfl, rfl, rfl, rfl, rfl⟩
      dsimp only
      rw [hpolicyParameters, htargetParameters]
      exact hfollowed

/-- Gradients are refused before anything is changed, or the policy and the
target are both moved. -/
theorem descend_cases {t t' : Trainer (Network α) α} (hform : t.target.form = t.policy.form)
    {gradients : Parameters α} {answer : Except NetworkError Unit}
    (h : t.descend gradients = .ok (answer, t')) :
    (∃ cause, answer = .error cause ∧ t' = t) ∨ (answer = .ok () ∧ Descends t gradients t') := by
  obtain ⟨⟨moved, optimizer⟩, hstep, hrest⟩ := exists_of_bind_eq_ok h
  cases moved with
  | error cause =>
    obtain ⟨_, _, _, rfl⟩ | ⟨_, _, _, haccepted, _⟩ := Optimizer.step_cases hstep
    · cases hrest
      exact .inl ⟨cause, rfl, rfl⟩
    · cases haccepted
  | ok moved =>
    obtain ⟨moved', hmoved, hdescends⟩ := descend_of_step hform hstep
    rw [hmoved] at h
    cases h
    exact .inr ⟨rfl, hdescends⟩

/-- A step is skipped with nothing changed, it fails with nothing learned, or it
is executed with clamped gradients. -/
theorem learn_outcome {t t' : Trainer (Network α) α} (hform : t.target.form = t.policy.form)
    {answer : Except StepError (Progress α)} (h : t.learn = .ok (answer, t')) :
    (t.memory.size < t.config.batchSize.toNat ∧
      answer = .ok (.skipped t.memory.size t.config.batchSize.toNat) ∧ t' = t) ∨
    (t.config.batchSize.toNat ≤ t.memory.size ∧ ∃ cause, answer = .error cause ∧
      Untrained t t') ∨
    (t.config.batchSize.toNat ≤ t.memory.size ∧ ∃ gradients moved loss,
      (∃ raw : Parameters α, raw.clampWithin gradientBound = .ok gradients) ∧
      Descends t gradients moved ∧ t' = { moved with epoch := moved.epoch + 1 } ∧
      answer = .ok (.executed t'.epoch loss)) := by
  unfold learn at h
  dsimp only at h
  split at h
  · rename_i hfew
    cases h
    exact .inl ⟨hfew, rfl, rfl⟩
  · rename_i henough
    refine .inr ?_
    have henough := Nat.not_lt.1 henough
    have hdraw := untrained_draw t
    cases hdrawn : t.draw with
    | mk batch drawn =>
      rw [hdrawn] at h hdraw
      cases batch with
      | error cause =>
        cases h
        exact .inl ⟨henough, cause, rfl, hdraw⟩
      | ok batch =>
        obtain ⟨⟨evaluation, evaluated⟩, hevaluate, h⟩ := exists_of_bind_eq_ok h
        obtain ⟨huntrained, hclamped⟩ := evaluate_cases hevaluate
        have hevaluated := hdraw.trans huntrained
        cases evaluation with
        | error cause =>
          cases h
          exact .inl ⟨henough, _, rfl, hevaluated⟩
        | ok evaluation =>
          obtain ⟨loss, gradients⟩ := evaluation
          obtain ⟨⟨descent, moved⟩, hdescend, hrest⟩ := exists_of_bind_eq_ok h
          have hevaluatedForm : evaluated.target.form = evaluated.policy.form := by
            rw [hevaluated.target, hevaluated.form, hform]
          obtain ⟨cause, rfl, rfl⟩ | ⟨rfl, hdescends⟩ := descend_cases hevaluatedForm hdescend
          · cases hrest
            exact .inl ⟨henough, _, rfl, hevaluated⟩
          · cases hrest
            exact .inr ⟨henough, gradients, moved, loss, hclamped loss gradients rfl,
              hdescends.of_untrained hevaluated, rfl, rfl⟩

/-- A step is skipped with nothing changed, it fails with nothing learned, or it
is executed. -/
theorem learn_cases {t t' : Trainer (Network α) α} (hform : t.target.form = t.policy.form)
    {answer : Except StepError (Progress α)} (h : t.learn = .ok (answer, t')) :
    (t.memory.size < t.config.batchSize.toNat ∧
      answer = .ok (.skipped t.memory.size t.config.batchSize.toNat) ∧ t' = t) ∨
    (t.config.batchSize.toNat ≤ t.memory.size ∧ ∃ cause, answer = .error cause ∧
      Untrained t t') ∨
    (t.config.batchSize.toNat ≤ t.memory.size ∧ ∃ gradients moved loss,
      Descends t gradients moved ∧ t' = { moved with epoch := moved.epoch + 1 } ∧
      answer = .ok (.executed t'.epoch loss)) := by
  obtain hskipped | hfailed | ⟨henough, gradients, moved, loss, _, hexecuted⟩ :=
    learn_outcome hform h
  · exact .inl hskipped
  · exact .inr (.inl hfailed)
  · exact .inr (.inr ⟨henough, gradients, moved, loss, hexecuted⟩)

end DeferredReward.Trainer
