import DeferredReward.Proofs.Network.Batches
import DeferredReward.Proofs.Trainer.Batches
import DeferredReward.Proofs.Trainer.Start

/-!
# Predictions for one observation and for a batch

A trainer asks its policy for a probability in two ways: for one observation, and for a
batch of them in a training step. Both come to the same value. What is predicted for an
observation is the probability that the first output of its row of the batch stands for,
whatever the other rows are, and the loss of an executed step has been computed from these
outputs.

Main statements: `predict_of_batch`, `evaluate_forward`, `batched_predictions`.
-/

namespace DeferredReward.Trainer

variable {α : Type} [Analysis α]

/-- The probability that a row of outputs stands for: that of its first element, if there
is one. -/
def probabilityAt (outputs : Matrix α) (r : ℕ) : α :=
  if 0 < outputs.cols then asProbability (outputs.entry r 0) else evenChance

variable {t : Trainer (Network α) α}

/-- What is predicted for an observation whose output is a row of outputs. -/
theorem predict_of_rowAt {features : Array α} {y : Matrix α} {r : ℕ}
    (h : t.policy.predict (.row features) = .ok (.ok (y.rowAt r))) :
    t.predict features = .ok (.ok (probabilityAt y r)) := by
  have hpolicy : Trainable.predict t.policy (.row features) = .ok (.ok (y.rowAt r)) := h
  rw [predict, bind_eq_of_ok hpolicy]
  dsimp only
  rw [Matrix.data_zero_rowAt, probabilityAt]
  by_cases hcols : 0 < y.cols
  · rw [if_pos hcols, if_pos hcols]
    rfl
  · rw [if_neg hcols, if_neg hcols]
    rfl

/-- The prediction for an observation is what a forward pass of any batch computes for it. -/
theorem predict_of_batch (hbias : t.policy.HasRowBiases) {transitions : List (Transition α)}
    {x rewards y : Matrix α} {kept : Network α} (hbatch : batchOf transitions = .ok (x, rewards))
    (hforward : t.policy.forward x = .ok (.ok y, kept)) {r : ℕ} (hr : r < transitions.length) :
    t.predict transitions[r].features = .ok (.ok (probabilityAt y r)) := by
  obtain ⟨hrows, hfeatures⟩ := rows_of_batchOf hbatch
  obtain ⟨_, hrowAt⟩ := Network.rowAt_predict hbias (Network.predict_of_forward hforward)
  refine predict_of_rowAt ?_
  rw [← (hfeatures r hr).1]
  exact hrowAt r (hrows.symm ▸ hr)

/-- A drawn batch is one of sampled transitions, and drawing it only touches the memory. -/
theorem draw_eq_ok {t' : Trainer (Network α) α} {batch : Matrix α × Matrix α}
    (h : t.draw = (.ok batch, t')) :
    t' = { t with memory := (t.memory.sample t.config.batchSize.toNat).2 } ∧ ∃ transitions,
      (t.memory.sample t.config.batchSize.toNat).1 = .ok transitions ∧
      batchOf transitions = .ok batch := by
  unfold draw at h
  dsimp only at h
  split at h
  · cases h
  · rename_i transitions hsample
    split at h
    · cases h
    · rename_i hbatch
      cases h
      exact ⟨rfl, transitions, hsample, hbatch⟩

/-- The loss of the outputs for a batch, where the rewards plus the discounted predictions
of the target are expected. -/
def HasLoss (t : Trainer (Network α) α) (x rewards outputs : Matrix α) (loss : α) : Prop :=
  ∃ ahead expected mean, t.target.predict x = .ok (.ok ahead) ∧
    Matrix.combine (· + ·) (ahead.map (· * t.config.discount)) rewards = .ok expected ∧
    smoothLoss expected outputs = .ok mean ∧ loss = mean.getD 0

/-- An evaluated batch has passed forward through the policy, and its loss is that of the
outputs. -/
theorem evaluate_forward {t' : Trainer (Network α) α} {x rewards : Matrix α} {loss : α}
    {gradients : Parameters α} (h : t.evaluate x rewards = .ok (.ok (loss, gradients), t')) :
    ∃ y kept, t.policy.forward x = .ok (.ok y, kept) ∧ t.HasLoss x rewards y loss := by
  obtain ⟨⟨predicted, kept⟩, hforward, h⟩ := exists_of_bind_eq_ok h
  cases predicted with
  | error cause => cases h
  | ok y =>
    obtain ⟨ahead, hahead, h⟩ := exists_of_bind_eq_ok h
    cases ahead with
    | error cause => cases h
    | ok ahead =>
      obtain ⟨expected, hexpected, h⟩ := exists_of_bind_eq_ok h
      obtain ⟨mean, hmean, h⟩ := exists_of_bind_eq_ok h
      obtain ⟨slope, _, h⟩ := exists_of_bind_eq_ok h
      obtain ⟨⟨answer, after⟩, _, h⟩ := exists_of_bind_eq_ok h
      cases answer with
      | error cause => cases h
      | ok recorded =>
        obtain ⟨clamped, _, h⟩ := exists_of_bind_eq_ok h
        cases h
        exact ⟨y, kept, hforward, ahead, expected, mean, hahead, hexpected, hmean, rfl⟩

/-- An executed step has drawn a batch and evaluated it. -/
theorem learn_evaluates {t' : Trainer (Network α) α} {epoch : UInt64} {loss : α}
    (h : t.learn = .ok (.ok (.executed epoch loss), t')) :
    ∃ x rewards drawn gradients evaluated, t.draw = (.ok (x, rewards), drawn) ∧
      drawn.evaluate x rewards = .ok (.ok (loss, gradients), evaluated) := by
  unfold learn at h
  dsimp only at h
  split at h
  · cases h
  · split at h
    · cases h
    · rename_i x rewards drawn hdraw
      obtain ⟨⟨evaluation, evaluated⟩, hevaluate, h⟩ := exists_of_bind_eq_ok h
      cases evaluation with
      | error cause => cases h
      | ok evaluation =>
        obtain ⟨own, gradients⟩ := evaluation
        obtain ⟨⟨descent, moved⟩, _, h⟩ := exists_of_bind_eq_ok h
        cases descent with
        | error cause => cases h
        | ok done =>
          cases h
          exact ⟨x, rewards, drawn, gradients, evaluated, hdraw, hevaluate⟩

/-- Over any numbers, a network whose biases have one row gives each row of a batch that
it takes the output it predicts for this row alone, and a forward pass answers what a
prediction does. So a trainer of such a policy predicts for each transition of a batch the
probability that its row of the forward pass stands for. An executed step has passed the
sampled transitions forward, has taken its loss from the outputs, and could have asked for
each of their probabilities alone. -/
theorem batched_predictions {σ : Type} [SnapshotStore (StateM σ) α] {network : Network α}
    (hbias : network.HasRowBiases) :
    (∀ x y, network.predict x = .ok (.ok y) →
      y.rows = x.rows ∧ ∀ r < x.rows, network.predict (x.rowAt r) = .ok (.ok (y.rowAt r))) ∧
    (∀ x, (network.forward x).map Prod.fst = network.predict x) ∧
    ∀ t : Trainer (Network α) α, t.policy = network →
      (∀ transitions x rewards y kept, batchOf transitions = .ok (x, rewards) →
        network.forward x = .ok (.ok y, kept) → ∀ r, (hr : r < transitions.length) →
          t.predict transitions[r].features = .ok (.ok (probabilityAt y r))) ∧
      ∀ epoch loss checkpoint t' store store',
        (t.optimize : StateM σ _).run store =
          (.ok (.ok (.executed epoch loss checkpoint), t'), store') →
        ∃ transitions x rewards y kept,
          (t.memory.sample t.config.batchSize.toNat).1 = .ok transitions ∧
          batchOf transitions = .ok (x, rewards) ∧ network.forward x = .ok (.ok y, kept) ∧
          t.HasLoss x rewards y loss ∧ ∀ r, (hr : r < transitions.length) →
            t.predict transitions[r].features = .ok (.ok (probabilityAt y r)) := by
  refine ⟨fun x y => Network.rowAt_predict hbias, network.forward_map_fst, ?_⟩
  rintro t rfl
  refine ⟨fun transitions x rewards y kept hbatch hforward r hr =>
    predict_of_batch hbias hbatch hforward hr,
    fun epoch loss checkpoint t' store store' hstep => ?_⟩
  obtain ⟨x, rewards, drawn, gradients, evaluated, hdraw, hevaluate⟩ :=
    learn_evaluates (learn_of_optimize hstep)
  obtain ⟨rfl, transitions, hsample, hbatch⟩ := draw_eq_ok hdraw
  obtain ⟨y, kept, hforward, hloss⟩ := evaluate_forward hevaluate
  exact ⟨transitions, x, rewards, y, kept, hsample, hbatch, hforward, hloss,
    fun r hr => predict_of_batch hbias hbatch hforward hr⟩

/-- Another observation of two features. -/
def secondTransition : Transition Float := ⟨#[-3, 0.25], 0.5, 0⟩

/-- Both observations are predicted as in the batch of the two. -/
theorem batched_predictions_pairTrainer :
    ∃ x rewards y kept, batchOf [pairTransition, secondTransition] = .ok (x, rewards) ∧
      pairTrainer.policy.forward x = .ok (.ok y, kept) ∧
      pairTrainer.predict #[1, 2] = .ok (.ok (probabilityAt y 0)) ∧
      pairTrainer.predict #[-3, 0.25] = .ok (.ok (probabilityAt y 1)) := by
  have hpredictor : pairTrainer.policy.IsPredictor 2 := ⟨rfl, 1, ⟨rfl, rfl⟩, rfl⟩
  have hstackable : Stackable 2 [pairTransition, secondTransition] :=
    ⟨List.cons_ne_nil _ _, by decide⟩
  obtain ⟨x, rewards, hbatch, hshape, _⟩ := batchOf_of_stackable hstackable
  obtain ⟨hforward, _⟩ := hpredictor.forward_eq (Matrix.cols_of_shape hshape)
  have hbias := Network.hasRowBiases_of_chained hpredictor.chained
  obtain ⟨-, -, hpolicy⟩ := batched_predictions (σ := FileTree) hbias
  obtain ⟨hpredictions, -⟩ := hpolicy pairTrainer rfl
  exact ⟨x, rewards, _, _, hbatch, hforward,
    hpredictions _ x rewards _ _ hbatch hforward 0 (by decide),
    hpredictions _ x rewards _ _ hbatch hforward 1 (by decide)⟩

end DeferredReward.Trainer
