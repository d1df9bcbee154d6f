import DeferredReward.Proofs.Matrix.Rows
import DeferredReward.Proofs.Network.Drawn
import DeferredReward.Proofs.Parameters.Blend
import DeferredReward.Trainer.Step

/-!
# Batches and their evaluation

Transitions of one width form a batch. Where both networks of a trainer are
predictors of this width, the batch is evaluated by the passes of the policy,
with the rewards plus the discounted predictions of the target as what is
expected; the gradients are those of the passes, clamped.

Main statements: `batchOf_of_stackable`, `rows_of_batchOf`, `draw_of_sample`, `evaluate_of_passes`,
`evaluate_eq`.
-/

namespace DeferredReward.Trainer

variable {α : Type}

/-! ## Batches -/

/-- There are transitions, and their features all have that width. -/
structure Stackable (width : ℕ) (transitions : List (Transition α)) : Prop where
  nonempty : transitions ≠ []
  features : ∀ transition ∈ transitions, transition.features.size = width

theorem Stackable.length_ne_zero {transitions : List (Transition α)} {width : ℕ}
    (h : Stackable width transitions) : transitions.length ≠ 0 :=
  fun hzero => h.nonempty (List.length_eq_zero_iff.1 hzero)

variable [Analysis α]

/-- Transitions of one width form a batch, if there are any. -/
theorem batchOf_of_stackable {transitions : List (Transition α)} {width : ℕ}
    (h : Stackable width transitions) :
    ∃ features rewards, batchOf transitions = .ok (features, rewards) ∧
      features.shape = ⟨transitions.length, width⟩ ∧
      rewards.shape = ⟨transitions.length, 1⟩ := by
  have hsize : (transitions.map Transition.features).toArray.size = transitions.length := by
    rw [List.size_toArray, List.length_map]
  have hpos : (transitions.map Transition.features).toArray.size ≠ 0 := by
    rw [hsize]
    exact h.length_ne_zero
  have hrows : ∀ row ∈ (transitions.map Transition.features).toArray, row.size = width := by
    intro row hrow
    obtain ⟨transition, hmem, rfl⟩ := List.mem_map.1 (List.mem_toArray.1 hrow)
    exact h.features transition hmem
  obtain ⟨features, hfeatures, hshape⟩ := Matrix.ofRows_of_size hpos hrows
  refine ⟨features, Matrix.column (transitions.map Transition.reward).toArray,
    bind_eq_of_ok hfeatures, hsize ▸ hshape, ?_⟩
  have hcolumn : (transitions.map Transition.reward).toArray.size = transitions.length := by
    rw [List.size_toArray, List.length_map]
  rw [← hcolumn]
  rfl

/-- The rows of a batch are the features and the rewards of its transitions. -/
theorem rows_of_batchOf {transitions : List (Transition α)} {x rewards : Matrix α}
    (h : batchOf transitions = .ok (x, rewards)) :
    x.rows = transitions.length ∧ ∀ r, (hr : r < transitions.length) →
      x.rowAt r = .row transitions[r].features ∧
        rewards.rowAt r = .row #[transitions[r].reward] := by
  obtain ⟨stacked, hstacked, hbatch⟩ := exists_of_bind_eq_ok h
  cases hbatch
  refine ⟨by simpa using Matrix.rows_ofRows hstacked, fun r hr => ?_⟩
  have hfeatures : r < (transitions.map Transition.features).toArray.size := by simpa using hr
  have hrewards : r < (transitions.map Transition.reward).toArray.size := by simpa using hr
  rw [Matrix.rowAt_ofRows hstacked hfeatures, Matrix.rowAt_column _ hrewards, List.getElem_toArray,
    List.getElem_toArray, List.getElem_map, List.getElem_map]
  exact ⟨rfl, rfl⟩

/-- A sample that forms a batch is drawn. -/
theorem draw_of_sample {ν : Type} {t : Trainer ν α} {transitions : List (Transition α)}
    {batch : Matrix α × Matrix α}
    (hsample : (t.memory.sample t.config.batchSize.toNat).1 = .ok transitions)
    (hbatch : batchOf transitions = .ok batch) :
    t.draw = (.ok batch, { t with memory := (t.memory.sample t.config.batchSize.toNat).2 }) := by
  unfold draw
  dsimp only
  rw [hsample]
  dsimp only
  rw [hbatch]

/-! ## Evaluation -/

variable {t : Trainer (Network α) α} {x rewards : Matrix α}

/-- What is expected of the policy on a batch: the rewards plus the discounted predictions of the
target. -/
def expectedFor (t : Trainer (Network α) α) (x rewards : Matrix α) : Matrix α :=
  Matrix.zip (· + ·) ((Network.outputThrough t.target.layers x).map (· * t.config.discount)) rewards

/-- A batch is evaluated by the passes of the policy on it, with the gradients clamped. -/
theorem evaluate_of_passes {ahead expected : Matrix α} {loss : α} {gradients clamped : Parameters α}
    {policy : Network α} (hahead : t.target.predict x = .ok (.ok ahead))
    (hexpected : Matrix.combine (· + ·) (ahead.map (· * t.config.discount)) rewards = .ok expected)
    (hpasses : t.policy.passes x expected = .ok (.ok (some loss, gradients), policy))
    (hclamped : gradients.clampWithin gradientBound = .ok clamped) :
    t.evaluate x rewards = .ok (.ok (loss, clamped), { t with policy }) := by
  obtain ⟨⟨predicted, forwarded⟩, hforward, hrest⟩ := exists_of_bind_eq_ok hpasses
  cases predicted with
  | error cause => cases hrest
  | ok predicted =>
    obtain ⟨mean, hloss, hrest⟩ := exists_of_bind_eq_ok hrest
    obtain ⟨slope, hslope, hrest⟩ := exists_of_bind_eq_ok hrest
    obtain ⟨⟨answer, backed⟩, hbackward, hrest⟩ := exists_of_bind_eq_ok hrest
    cases answer with
    | error cause => cases hrest
    | ok recorded =>
      cases hrest
      refine (bind_eq_of_ok hforward).trans ((bind_eq_of_ok hahead).trans ?_)
      refine (bind_eq_of_ok hexpected).trans ((bind_eq_of_ok hloss).trans ?_)
      refine (bind_eq_of_ok hslope).trans ((bind_eq_of_ok hbackward).trans ?_)
      exact bind_eq_of_ok hclamped

section Predictors

variable {width rows : ℕ} (hpolicy : t.policy.IsPredictor width)
  (htarget : t.target.IsPredictor width) (hx : x.shape = ⟨rows, width⟩)
  (hrewards : rewards.shape = ⟨rows, 1⟩)

include htarget hx hrewards

/-- What is expected of a predictor for a batch of its width. -/
theorem combine_expectedFor :
    Matrix.combine (· + ·) ((Network.outputThrough t.target.layers x).map (· * t.config.discount))
        rewards = .ok (t.expectedFor x rewards) ∧
      (t.expectedFor x rewards).shape = ⟨rows, 1⟩ := by
  obtain ⟨hrows, hcols⟩ := Matrix.shape_eq_iff.1 hx
  obtain ⟨_, hshape⟩ := htarget.predict_eq hcols
  rw [hrows] at hshape
  have hsame : rewards.shape =
      ((Network.outputThrough t.target.layers x).map (· * t.config.discount)).shape := by
    rw [hrewards, Matrix.shape_map, hshape]
  exact ⟨Matrix.combine_of_shape_eq _ hsame, hshape⟩

include hpolicy

/-- Two predictors of one width agree on a loss, and its gradients have the
layout of the parameters. -/
theorem evaluate_eq (hbound : Arithmetic.atMost (-gradientBound : α) gradientBound = true)
    (hpos : rows ≠ 0) :
    ∃ clamped, (Network.trainedOn t.policy.layers x (t.expectedFor x rewards)).gradients.clampWithin
        gradientBound = .ok clamped ∧
      clamped.layout = t.policy.parameters.layout ∧
      t.evaluate x rewards =
        .ok (.ok (Network.lossFor t.policy.layers x (t.expectedFor x rewards), clamped),
          { t with policy := Network.trainedOn t.policy.layers x (t.expectedFor x rewards) }) := by
  obtain ⟨hahead, _⟩ := htarget.predict_eq (Matrix.cols_of_shape hx)
  obtain ⟨hexpected, hshape⟩ := combine_expectedFor htarget hx hrewards
  obtain ⟨hpasses, hlayout⟩ := Network.passes_eq hpolicy hx hshape hpos
  obtain ⟨clamped, hclamped, hsame⟩ := Parameters.clampWithin_eq_ok hbound
    (Network.trainedOn t.policy.layers x (t.expectedFor x rewards)).gradients
  exact ⟨clamped, hclamped, hsame.trans hlayout,
    evaluate_of_passes hahead hexpected hpasses hclamped⟩

end Predictors

end DeferredReward.Trainer
