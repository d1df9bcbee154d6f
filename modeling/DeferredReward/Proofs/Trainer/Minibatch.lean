import DeferredReward.Proofs.Network.Minibatch
import DeferredReward.Proofs.Trainer.Exact
import DeferredReward.Proofs.Trainer.Twins

/-!
# The order of a batch

A step evaluates the policy on a batch, with the rewards plus the discounted
predictions of the target as what is expected. In exact arithmetic the loss and
the gradients are means over the transitions of the batch, each of which counts
on its own. So the order in which a batch was drawn has no influence on what is
learned from it.

Main statements: `lossFor_batchOf`, `element_batchOf`, `evaluate_of_perm`, `learn_of_perm`,
`batch_averages_transitions`.
-/

namespace DeferredReward.Trainer

variable {α : Type}

/-! ## Batches of transitions -/

/-- What is expected of a row depends on this row alone. -/
theorem rowAt_expectedFor [Analysis α] {t : Trainer (Network α) α} {width : ℕ}
    (htarget : t.target.IsPredictor width) {x rewards : Matrix α} (hx : x.cols = width)
    (hrewards : rewards.cols = 1) {r : ℕ} (hr : r < x.rows) :
    (t.expectedFor x rewards).rowAt r = t.expectedFor (x.rowAt r) (rewards.rowAt r) := by
  obtain ⟨_, hshape⟩ := htarget.predict_eq hx
  obtain ⟨hrows, hcols⟩ := Matrix.shape_eq_iff.1 hshape
  have hinside : r < (Network.outputThrough t.target.layers x).rows := hrows.symm ▸ hr
  have hmapped : rewards.cols =
      ((Network.outputThrough t.target.layers x).map (· * t.config.discount)).cols :=
    hrewards.trans hcols.symm
  rw [expectedFor, Matrix.rowAt_zip _ hmapped hinside, Matrix.rowAt_map _ hinside,
    Network.rowAt_outputThrough _ hr]
  rfl

/-- A sum over the rows of a batch is a sum over its transitions. -/
theorem sum_rows_batchOf [Analysis α] {M : Type} [AddCommMonoid M]
    {transitions : List (Transition α)} {x rewards : Matrix α}
    (h : batchOf transitions = .ok (x, rewards)) (f : Matrix α → Matrix α → M) :
    ∑ r ∈ Finset.range transitions.length, f (x.rowAt r) (rewards.rowAt r) =
      (transitions.map fun transition =>
        f (.row transition.features) (.row #[transition.reward])).sum := by
  obtain ⟨_, hrows⟩ := rows_of_batchOf h
  rw [Finset.sum_range, ← Fin.sum_univ_fun_getElem]
  refine Finset.sum_congr rfl fun i _ => ?_
  obtain ⟨hfeatures, hrewards⟩ := hrows i i.isLt
  rw [hfeatures, hrewards]

section Batch

variable {t : Trainer (Network ℝ) ℝ} {width : ℕ} {x rewards : Matrix ℝ}
  {transitions : List (Transition ℝ)}

/-- The loss on one transition alone. -/
noncomputable def lossOf (t : Trainer (Network ℝ) ℝ) (transition : Transition ℝ) : ℝ :=
  Network.lossFor t.policy.layers (.row transition.features)
    (t.expectedFor (.row transition.features) (.row #[transition.reward]))

/-- The gradients for one transition alone, before they are clamped. -/
noncomputable def gradientsOf (t : Trainer (Network ℝ) ℝ) (transition : Transition ℝ) :
    Parameters ℝ :=
  (Network.trainedOn t.policy.layers (.row transition.features)
    (t.expectedFor (.row transition.features) (.row #[transition.reward]))).gradients

variable (hpolicy : t.policy.IsPredictor width) (htarget : t.target.IsPredictor width)
  (hstackable : Stackable width transitions) (hbatch : batchOf transitions = .ok (x, rewards))

include htarget hstackable hbatch

/-- The shapes of a batch and of what is expected for it. -/
theorem shapes_of_batchOf : x.shape = ⟨transitions.length, width⟩ ∧
    rewards.shape = ⟨transitions.length, 1⟩ ∧
    (t.expectedFor x rewards).shape = ⟨transitions.length, 1⟩ := by
  obtain ⟨_, _, hsame, hx, hrewards⟩ := batchOf_of_stackable hstackable
  rw [hbatch] at hsame
  cases hsame
  exact ⟨hx, hrewards, (combine_expectedFor htarget hx hrewards).2⟩

/-- A sum over the rows of a batch and of what is expected for it is a sum over its transitions. -/
theorem sum_rows_expectedFor (f : Matrix ℝ → Matrix ℝ → ℝ) :
    ∑ r ∈ Finset.range transitions.length, f (x.rowAt r) ((t.expectedFor x rewards).rowAt r) =
      (transitions.map fun transition => f (.row transition.features)
        (t.expectedFor (.row transition.features) (.row #[transition.reward]))).sum := by
  obtain ⟨hx, hrewards, _⟩ := shapes_of_batchOf htarget hstackable hbatch
  obtain ⟨hrows, hcols⟩ := Matrix.shape_eq_iff.1 hx
  rw [← sum_rows_batchOf hbatch fun x rewards => f x (t.expectedFor x rewards)]
  refine Finset.sum_congr rfl fun r hr => ?_
  rw [rowAt_expectedFor htarget hcols (Matrix.cols_of_shape hrewards)
    (hrows.symm ▸ Finset.mem_range.1 hr)]

include hpolicy

/-- The loss of a batch is the mean of the losses on its transitions. -/
theorem lossFor_batchOf : Network.lossFor t.policy.layers x (t.expectedFor x rewards) =
    (transitions.map t.lossOf).sum / transitions.length := by
  obtain ⟨hx, _, hexpected⟩ := shapes_of_batchOf htarget hstackable hbatch
  rw [Network.lossFor_eq_mean hpolicy.chained hx hexpected]
  exact congrArg (· / (transitions.length : ℝ))
    (sum_rows_expectedFor htarget hstackable hbatch (Network.lossFor t.policy.layers))

/-- The gradients of a batch have the layout of the parameters. -/
theorem layout_batchOf :
    (Network.trainedOn t.policy.layers x (t.expectedFor x rewards)).gradients.layout =
      t.policy.parameters.layout := by
  obtain ⟨hx, _, hexpected⟩ := shapes_of_batchOf htarget hstackable hbatch
  exact (Network.passes_eq hpolicy hx hexpected hstackable.length_ne_zero).2

/-- The gradients of a batch are the means of the gradients for its transitions. -/
theorem element_batchOf (name : String) (row col : ℕ) :
    (Network.trainedOn t.policy.layers x (t.expectedFor x rewards)).gradients.element name row col =
      1 / (transitions.length : ℝ) * (transitions.map fun transition =>
        (t.gradientsOf transition).element name row col).sum := by
  obtain ⟨hx, _, hexpected⟩ := shapes_of_batchOf htarget hstackable hbatch
  rw [Network.element_trainedOn hpolicy.chained hx hexpected]
  exact congrArg (1 / (transitions.length : ℝ) * ·)
    (sum_rows_expectedFor htarget hstackable hbatch fun x expected =>
      (Network.trainedOn t.policy.layers x expected).gradients.element name row col)

end Batch

/-! ## Another order -/

/-- The trainers differ at most in their memories. -/
structure SameButMemory {ν : Type} (t t' : Trainer ν α) : Prop where
  config : t'.config = t.config
  policy : t'.policy = t.policy
  target : t'.target = t.target
  optimizer : t'.optimizer = t.optimizer
  staging : t'.staging = t.staging
  epoch : t'.epoch = t.epoch

/-- Descending takes no account of the memory. -/
theorem SameButMemory.descend [Analysis α] {ν : Type} [Trainable ν α] {t t' : Trainer ν α}
    (h : SameButMemory t t') (gradients : Parameters α) :
    SameOutcome (Alike SameButMemory) (t.descend gradients) (t'.descend gradients) := by
  have hweight : t.config.blendWeight = t'.config.blendWeight := by rw [h.config]
  exact descend_alike h.policy.symm h.target.symm h.optimizer.symm hweight (fun _ _ _ =>
    { h with policy := rfl, target := rfl, optimizer := rfl }) gradients

/-- Another order can be stacked too. -/
theorem Stackable.perm {width : ℕ} {transitions other : List (Transition α)}
    (h : Stackable width transitions) (hperm : transitions.Perm other) : Stackable width other where
  nonempty hnil := h.nonempty (hnil ▸ hperm).eq_nil
  features transition hmem := h.features transition (hperm.mem_iff.2 hmem)

section Order

variable {t t' : Trainer (Network ℝ) ℝ} {width : ℕ} {transitions other : List (Transition ℝ)}
  (h : SameButMemory t t') (hpolicy : t.policy.IsPredictor width)
  (htarget : t.target.IsPredictor width) (hstackable : Stackable width transitions)
  (hperm : transitions.Perm other)

include hpolicy htarget hstackable hperm

/-- A batch in another order has the same loss, which is a sum over its transitions. -/
theorem lossFor_of_perm {x rewards x' rewards' : Matrix ℝ}
    (hbatch : batchOf transitions = .ok (x, rewards))
    (hbatch' : batchOf other = .ok (x', rewards')) :
    Network.lossFor t.policy.layers x (t.expectedFor x rewards) =
      Network.lossFor t.policy.layers x' (t.expectedFor x' rewards') := by
  rw [lossFor_batchOf hpolicy htarget hstackable hbatch,
    lossFor_batchOf hpolicy htarget (hstackable.perm hperm) hbatch', (hperm.map t.lossOf).sum_eq,
    hperm.length_eq]

/-- A batch in another order has the same gradients, which are sums over its transitions. -/
theorem gradients_of_perm {x rewards x' rewards' : Matrix ℝ}
    (hbatch : batchOf transitions = .ok (x, rewards))
    (hbatch' : batchOf other = .ok (x', rewards')) :
    (Network.trainedOn t.policy.layers x (t.expectedFor x rewards)).gradients =
      (Network.trainedOn t.policy.layers x' (t.expectedFor x' rewards')).gradients := by
  have hother := hstackable.perm hperm
  refine Parameters.ext_element ?_ fun name row col => ?_
  · rw [layout_batchOf hpolicy htarget hstackable hbatch,
      layout_batchOf hpolicy htarget hother hbatch']
  · rw [element_batchOf hpolicy htarget hstackable hbatch,
      element_batchOf hpolicy htarget hother hbatch', (hperm.map _).sum_eq, hperm.length_eq]

include h

/-- A batch in another order is evaluated to the same loss and gradients. -/
theorem evaluate_of_perm {x rewards x' rewards' : Matrix ℝ}
    (hbatch : batchOf transitions = .ok (x, rewards))
    (hbatch' : batchOf other = .ok (x', rewards')) : ∃ loss gradients policy,
      t.evaluate x rewards = .ok (.ok (loss, gradients), { t with policy }) ∧
      t'.evaluate x' rewards' = .ok (.ok (loss, gradients), { t' with policy }) := by
  have hother := hstackable.perm hperm
  obtain ⟨hx, hrewards, _⟩ := shapes_of_batchOf htarget hstackable hbatch
  obtain ⟨hx', hrewards', _⟩ := shapes_of_batchOf htarget hother hbatch'
  obtain ⟨clamped, hclamped, _, hevaluate⟩ :=
    evaluate_eq hpolicy htarget hx hrewards atMost_gradientBound hstackable.length_ne_zero
  obtain ⟨clamped', hclamped', _, hevaluate'⟩ :=
    evaluate_eq (h.policy.symm ▸ hpolicy) (h.target.symm ▸ htarget) hx' hrewards'
      atMost_gradientBound hother.length_ne_zero
  -- What the two batches tell is the same, and the trainers agree on all that they tell it from.
  have hexpected : t'.expectedFor x' rewards' = t.expectedFor x' rewards' := by
    rw [expectedFor, expectedFor, h.target, h.config]
  have hloss := lossFor_of_perm hpolicy htarget hstackable hperm hbatch hbatch'
  have hgradients := gradients_of_perm hpolicy htarget hstackable hperm hbatch hbatch'
  rw [h.policy, hexpected, ← hloss, ← Network.trainedOn_eq_of_gradients hgradients] at hevaluate'
  rw [h.policy, hexpected, ← hgradients, hclamped] at hclamped'
  cases hclamped'
  exact ⟨_, _, _, hevaluate, hevaluate'⟩

/-- Steps on samples of the same transitions in another order make the same report and leave
trainers that differ in their memories only. -/
theorem learn_of_perm (hsample : (t.memory.sample t.config.batchSize.toNat).1 = .ok transitions)
    (hsample' : (t'.memory.sample t'.config.batchSize.toNat).1 = .ok other) :
    SameOutcome (Alike SameButMemory) t.learn t'.learn := by
  obtain ⟨x, rewards, hbatch, _⟩ := batchOf_of_stackable hstackable
  obtain ⟨x', rewards', hbatch', _⟩ := batchOf_of_stackable (hstackable.perm hperm)
  have hdrawn : SameButMemory { t with memory := (t.memory.sample t.config.batchSize.toNat).2 }
      { t' with memory := (t'.memory.sample t'.config.batchSize.toNat).2 } :=
    ⟨h.config, h.policy, h.target, h.optimizer, h.staging, h.epoch⟩
  obtain ⟨loss, gradients, policy, hevaluate, hevaluate'⟩ :=
    evaluate_of_perm hdrawn hpolicy htarget hstackable hperm hbatch hbatch'
  refine learn_alike (ReplayMemory.not_lt_of_sample hsample)
    (ReplayMemory.not_lt_of_sample hsample') (draw_of_sample hsample hbatch)
    (draw_of_sample hsample' hbatch') ?_ (fun _ _ => SameButMemory.descend)
    fun _ _ h => ⟨h.epoch.symm, fun _ => { h with epoch := rfl }⟩
  rw [hevaluate, hevaluate']
  exact .result ⟨rfl, { hdrawn with policy := rfl }⟩

end Order

/-- On a batch a network of the form of a predictor has the mean of the losses and, element by
element, of the gradients that it has on the rows of the batch, each taken alone. The form says
nothing about curves and parameter values. Hence samples of the same transitions, drawn in any
order, are evaluated to the same loss and gradients, and steps on them make the same report and
leave trainers that differ in their memories only. -/
theorem batch_averages_transitions {inputs : ℕ} {hiddenSizes : List ℕ} {activation : Activation}
    {g : Generator} {network : Network ℝ}
    (hform : network.form =
      (Network.drawPredictor (α := ℝ) inputs hiddenSizes activation g).1.form) :
    (∀ (rows : ℕ) (x expected : Matrix ℝ), rows ≠ 0 → x.shape = ⟨rows, inputs⟩ →
      expected.shape = ⟨rows, 1⟩ →
      ∃ loss gradients after, ∃ losses : ℕ → ℝ, ∃ shares : ℕ → Parameters ℝ,
        ∃ afters : ℕ → Network ℝ,
        network.passes x expected = .ok (.ok (some loss, gradients), after) ∧
        (∀ r < rows, network.passes (x.rowAt r) (expected.rowAt r) =
          .ok (.ok (some (losses r), shares r), afters r)) ∧
        loss = (∑ r ∈ Finset.range rows, losses r) / rows ∧
        gradients.layout = network.parameters.layout ∧
        (∀ r < rows, (shares r).layout = network.parameters.layout) ∧
        ∀ name row col, gradients.element name row col =
          1 / (rows : ℝ) * ∑ r ∈ Finset.range rows, (shares r).element name row col) ∧
    ∀ (t t' : Trainer (Network ℝ) ℝ) (transitions other : List (Transition ℝ)),
      t.policy = network → t.target.form = network.form → SameButMemory t t' →
      (t.memory.sample t.config.batchSize.toNat).1 = .ok transitions →
      (t'.memory.sample t'.config.batchSize.toNat).1 = .ok other →
      Stackable inputs transitions → transitions.Perm other →
      (∃ x rewards x' rewards' loss gradients policy,
        batchOf transitions = .ok (x, rewards) ∧ batchOf other = .ok (x', rewards') ∧
        t.evaluate x rewards = .ok (.ok (loss, gradients), { t with policy }) ∧
        t'.evaluate x' rewards' = .ok (.ok (loss, gradients), { t' with policy })) ∧
      SameOutcome (Alike SameButMemory) t.learn t'.learn := by
  have hpredictor : network.IsPredictor inputs :=
    (Network.isPredictor_drawPredictor inputs hiddenSizes activation g).of_form hform
  constructor
  · intro rows x expected hrows hx hexpected
    exact Network.passes_average hpredictor hrows hx hexpected
  · rintro t t' transitions other rfl htarget h hsample hsample' hstackable hperm
    have htarget := hpredictor.of_form htarget
    obtain ⟨x, rewards, hbatch, _⟩ := batchOf_of_stackable hstackable
    obtain ⟨x', rewards', hbatch', _⟩ := batchOf_of_stackable (hstackable.perm hperm)
    obtain ⟨loss, gradients, policy, hevaluate, hevaluate'⟩ :=
      evaluate_of_perm h hpredictor htarget hstackable hperm hbatch hbatch'
    exact ⟨⟨x, rewards, x', rewards', loss, gradients, policy, hbatch, hbatch', hevaluate,
      hevaluate'⟩, learn_of_perm h hpredictor htarget hstackable hperm hsample hsample'⟩

/-- A memory of two transitions. -/
noncomputable def pairMemory (first second : Transition ℝ) : ReplayMemory ℝ :=
  ⟨2, .ofSeed 1, [first, second], [], 2, rfl, le_rfl⟩

/-- Such a memory draws both transitions, the second one first. -/
theorem sample_pairMemory (first second : Transition ℝ) :
    ((pairMemory first second).sample 2).1 = .ok [second, first] := by
  have hchosen : ((Generator.ofSeed 1).choose 2 2).1 = [1, 0] := by decide +kernel
  have henough : ¬(pairMemory first second).size < 2 := Nat.lt_irrefl 2
  rw [ReplayMemory.sample, ReplayMemory.sampleBy, if_neg henough]
  dsimp only [pairMemory]
  rw [hchosen]
  rfl

/-- Exact training in batches of two, with two transitions in the memory. -/
noncomputable def pairTrainerOf (first second : Transition ℝ) : Trainer (Network ℝ) ℝ :=
  { exactTrainer with
    config := { exactConfig with batchSize := 2 }
    memory := pairMemory first second }

/-- A rewarded transition. -/
noncomputable def rewarded : Transition ℝ := ⟨#[1, 0], 0, 1⟩

/-- A transition without reward. -/
noncomputable def unrewarded : Transition ℝ := ⟨#[0, 1], 0, 0⟩

/-- Two rows share the loss equally, and it makes no difference in which order two transitions come
out of the memory. -/
theorem batch_averages_transitions_twoRows :
    (∃ loss gradients after, ∃ losses : ℕ → ℝ, ∃ shares : ℕ → Parameters ℝ,
      ∃ afters : ℕ → Network ℝ,
      exactTrainer.policy.passes ⟨2, 2, #[1, 2, 3, 4], rfl⟩ (.column #[1, 0]) =
        .ok (.ok (some loss, gradients), after) ∧
      exactTrainer.policy.passes (.row #[1, 2]) (.row #[1]) =
        .ok (.ok (some (losses 0), shares 0), afters 0) ∧
      exactTrainer.policy.passes (.row #[3, 4]) (.row #[0]) =
        .ok (.ok (some (losses 1), shares 1), afters 1) ∧
      loss = (losses 0 + losses 1) / 2) ∧
    SameOutcome (Alike SameButMemory) (pairTrainerOf rewarded unrewarded).learn
      (pairTrainerOf unrewarded rewarded).learn := by
  have hform : exactTrainer.policy.form =
      (Network.drawPredictor (α := ℝ) 2 [] .relu (.ofSeed 1)).1.form := rfl
  have htarget : exactTrainer.target.form = exactTrainer.policy.form :=
    (started_of_fromConfig fromConfig_exactTrainer).1.form
  obtain ⟨hmean, horder⟩ := batch_averages_transitions hform
  constructor
  · obtain ⟨loss, gradients, after, losses, shares, afters, hpasses, hrows, hloss, _⟩ :=
      hmean 2 ⟨2, 2, #[1, 2, 3, 4], rfl⟩ (.column #[1, 0]) (by decide) rfl rfl
    refine ⟨loss, gradients, after, losses, shares, afters, hpasses, hrows 0 (by decide),
      hrows 1 (by decide), ?_⟩
    rw [hloss, Finset.sum_range_succ, Finset.sum_range_one, Nat.cast_ofNat]
  · have hstackable : Stackable 2 [unrewarded, rewarded] := by
      refine ⟨List.cons_ne_nil _ _, fun transition hmem => ?_⟩
      rcases List.mem_pair.1 hmem with rfl | rfl <;> rfl
    have hsame : SameButMemory (pairTrainerOf rewarded unrewarded)
        (pairTrainerOf unrewarded rewarded) := ⟨rfl, rfl, rfl, rfl, rfl, rfl⟩
    obtain ⟨_, hlearn⟩ := horder (pairTrainerOf rewarded unrewarded)
      (pairTrainerOf unrewarded rewarded) _ _ rfl htarget hsame (sample_pairMemory _ _)
      (sample_pairMemory _ _) hstackable (List.Perm.swap _ _ _)
    exact hlearn

end DeferredReward.Trainer
