import DeferredReward.Proofs.Arithmetic.Order
import DeferredReward.Proofs.Config
import DeferredReward.Proofs.Network.Inference
import DeferredReward.Proofs.Trainer.Exact

/-!
# Predictions are probabilities

Nothing is known of the numbers that training leads a network to. What a trainer
predicts is a probability nevertheless, since every double is made one: an undefined
output, like one without elements, becomes the even chance, infinities and numbers
outside the interval become its ends, and probabilities stay what they are. An error is
that of the network, and a stack of layers only refuses observations of another length
than the one it reports.

Staged rewards that are probabilities are revised towards outcomes that are, with a
weight that an accepted configuration keeps from zero to one. So in exact arithmetic
they remain probabilities, whatever network is trained and whatever else is done.

Main statements: `isProbability_asProbability`, `predict_eq`, `scored_of_run`,
`predictions_are_probabilities`.
-/

namespace DeferredReward

/-- The number is a probability: it is defined and from zero to one. -/
structure IsProbability {α : Type} [Arithmetic α] (p : α) : Prop where
  defined : Arithmetic.isNaN p = false
  nonneg : Arithmetic.atMost 0 p = true
  le_one : Arithmetic.atMost p 1 = true

theorem isProbability_iff_double {p : Float} :
    IsProbability p ↔ p.isNaN = false ∧ 0 ≤ p ∧ p ≤ 1 :=
  ⟨fun h => ⟨h.defined, of_decide_eq_true h.nonneg, of_decide_eq_true h.le_one⟩,
    fun h => ⟨h.1, decide_eq_true h.2.1, decide_eq_true h.2.2⟩⟩

theorem isProbability_iff_real {p : ℝ} : IsProbability p ↔ 0 ≤ p ∧ p ≤ 1 :=
  ⟨fun h => ⟨of_decide_eq_true h.nonneg, of_decide_eq_true h.le_one⟩,
    fun h => ⟨rfl, decide_eq_true h.1, decide_eq_true h.2⟩⟩

/-- The order tests find zero below one, and the even chance between them. -/
class Chances (α : Type) [Arithmetic α] : Prop extends OrderTests α where
  bounds : Arithmetic.atMost (0 : α) 1 = true
  even : IsProbability (evenChance : α)

instance : Chances Float where
  bounds := by decide +kernel
  even := ⟨by decide +kernel, by decide +kernel, by decide +kernel⟩

instance : Chances ℝ where
  bounds := decide_eq_true zero_le_one
  even := by
    rw [isProbability_iff_real, evenChance]
    norm_num

section Chances

variable {α : Type} [Arithmetic α] [Chances α]

/-- A number between zero and one is defined. -/
theorem isProbability_of_atMost {x : α} (hlow : Arithmetic.atMost 0 x = true)
    (hhigh : Arithmetic.atMost x 1 = true) : IsProbability x :=
  ⟨((OrderTests.atMost_iff 0 x).1 hlow).2.1, hlow, hhigh⟩

/-- Every output stands for a probability. -/
theorem isProbability_asProbability (output : α) : IsProbability (asProbability output) := by
  rw [asProbability]
  cases hdefined : Arithmetic.isNaN output with
  | true => exact Chances.even
  | false =>
    obtain ⟨hlow, hhigh⟩ := Arithmetic.clamp_mem Chances.bounds hdefined
    exact isProbability_of_atMost hlow hhigh

/-- A probability stands for itself. -/
theorem asProbability_eq_self {p : α} (h : IsProbability p) : asProbability p = p := by
  rw [asProbability, h.defined]
  exact Arithmetic.clamp_eq_self h.nonneg h.le_one

end Chances

/-- The operation stages rewards and revises towards outcomes between the bounds only. -/
def Operation.Scores (low high : ℝ) : Operation ℝ → Prop
  | .stage transition => low ≤ transition.reward ∧ transition.reward ≤ high
  | .revise outcome => low ≤ outcome ∧ outcome ≤ high
  | _ => True

namespace Trainer

section Predictions

variable {ν α : Type} [Analysis α] [Trainable ν α]

/-- The probability that an output matrix stands for: that of its first element, if there
is one. -/
def probabilityOf (output : Matrix α) : α :=
  match output.data[0]? with
  | some first => asProbability first
  | none => evenChance

/-- A trainer answers what its policy does, with a probability in place of an output. -/
theorem predict_eq (t : Trainer ν α) (features : Array α) :
    t.predict features =
      (Trainable.predict t.policy (.row features)).map fun answer => answer.map probabilityOf := by
  rw [predict]
  rcases Trainable.predict t.policy (.row features) with fault | cause | output <;> rfl

theorem predict_eq_error_iff (t : Trainer ν α) (features : Array α) (fault : Fault) :
    t.predict features = .error fault ↔
      Trainable.predict t.policy (.row features) = .error fault := by
  rw [predict_eq]
  rcases Trainable.predict t.policy (.row features) with fault | cause | output <;>
    simp [Except.map]

theorem predict_eq_refusal_iff (t : Trainer ν α) (features : Array α) (cause : NetworkError) :
    t.predict features = .ok (.error cause) ↔
      Trainable.predict t.policy (.row features) = .ok (.error cause) := by
  rw [predict_eq]
  rcases Trainable.predict t.policy (.row features) with fault | cause | output <;>
    simp [Except.map]

/-- A trainer answers with a number when its policy gives an output. -/
theorem predict_eq_ok_iff {t : Trainer ν α} {features : Array α} {p : α} :
    t.predict features = .ok (.ok p) ↔
      ∃ output, Trainable.predict t.policy (.row features) = .ok (.ok output) ∧
        p = probabilityOf output := by
  rw [predict_eq]
  rcases Trainable.predict t.policy (.row features) with fault | cause | output <;>
    simp [Except.map, eq_comm]

variable [Chances α]

theorem isProbability_probabilityOf (output : Matrix α) :
    IsProbability (probabilityOf output) := by
  rw [probabilityOf]
  split
  · exact isProbability_asProbability _
  · exact Chances.even

theorem probabilityOf_eq {output : Matrix α} {first : α} (hfirst : output.data[0]? = some first)
    (h : IsProbability first) : probabilityOf output = first := by
  rw [probabilityOf, hfirst]
  exact asProbability_eq_self h

theorem isProbability_of_predict {t : Trainer ν α} {features : Array α} {p : α}
    (h : t.predict features = .ok (.ok p)) : IsProbability p := by
  obtain ⟨output, -, rfl⟩ := predict_eq_ok_iff.1 h
  exact isProbability_probabilityOf output

end Predictions

/-! ## What a step leaves alone -/

section Staging

variable {ν α : Type} {t t' : Trainer ν α}

/-- The settings and the staged transitions are the same. -/
structure SameStaging (t t' : Trainer ν α) : Prop where
  config : t'.config = t.config
  staging : t'.staging = t.staging

theorem SameStaging.trans {t'' : Trainer ν α} (h : SameStaging t t') (h' : SameStaging t' t'') :
    SameStaging t t'' :=
  ⟨h'.config.trans h.config, h'.staging.trans h.staging⟩

variable [Analysis α]

theorem sameStaging_draw (t : Trainer ν α) : SameStaging t t.draw.2 := by
  unfold draw
  dsimp only
  split
  · exact ⟨rfl, rfl⟩
  · split <;> exact ⟨rfl, rfl⟩

variable [Trainable ν α]

theorem sameStaging_of_evaluate {features rewards : Matrix α}
    {answer : Except NetworkError (α × Parameters α)}
    (h : t.evaluate features rewards = .ok (answer, t')) : SameStaging t t' := by
  obtain ⟨⟨predicted, forwarded⟩, _, h⟩ := exists_of_bind_eq_ok h
  cases predicted with
  | error cause =>
    cases h
    exact ⟨rfl, rfl⟩
  | ok predicted =>
    obtain ⟨ahead, _, h⟩ := exists_of_bind_eq_ok h
    cases ahead with
    | error cause =>
      cases h
      exact ⟨rfl, rfl⟩
    | ok ahead =>
      obtain ⟨expected, _, h⟩ := exists_of_bind_eq_ok h
      obtain ⟨loss, _, h⟩ := exists_of_bind_eq_ok h
      obtain ⟨slope, _, h⟩ := exists_of_bind_eq_ok h
      obtain ⟨⟨gradients, backed⟩, _, h⟩ := exists_of_bind_eq_ok h
      cases gradients with
      | error cause =>
        cases h
        exact ⟨rfl, rfl⟩
      | ok gradients =>
        obtain ⟨clamped, _, h⟩ := exists_of_bind_eq_ok h
        cases h
        exact ⟨rfl, rfl⟩

theorem sameStaging_of_descend {gradients : Parameters α} {answer : Except NetworkError Unit}
    (h : t.descend gradients = .ok (answer, t')) : SameStaging t t' := by
  obtain ⟨⟨moved, optimizer⟩, _, h⟩ := exists_of_bind_eq_ok h
  cases moved with
  | error cause =>
    cases h
    exact ⟨rfl, rfl⟩
  | ok parameters =>
    obtain ⟨policy, _, h⟩ := exists_of_bind_eq_ok h
    cases policy with
    | error cause =>
      cases h
      exact ⟨rfl, rfl⟩
    | ok policy =>
      dsimp only at h
      split at h
      · cases h
        exact ⟨rfl, rfl⟩
      · obtain ⟨target, _, h⟩ := exists_of_bind_eq_ok h
        cases target with
        | error cause =>
          cases h
          exact ⟨rfl, rfl⟩
        | ok target =>
          cases h
          exact ⟨rfl, rfl⟩

/-- Whatever network is trained, a step has nothing to do with what is staged. -/
theorem sameStaging_of_learn {answer : Except StepError (Progress α)}
    (h : t.learn = .ok (answer, t')) : SameStaging t t' := by
  unfold learn at h
  dsimp only at h
  split at h
  · cases h
    exact ⟨rfl, rfl⟩
  · have hdraw := sameStaging_draw t
    cases hdrawn : t.draw with
    | mk batch drawn =>
      rw [hdrawn] at h hdraw
      cases batch with
      | error cause =>
        cases h
        exact hdraw
      | ok batch =>
        obtain ⟨⟨evaluation, evaluated⟩, hevaluate, h⟩ := exists_of_bind_eq_ok h
        have hevaluated := hdraw.trans (sameStaging_of_evaluate hevaluate)
        cases evaluation with
        | error cause =>
          cases h
          exact hevaluated
        | ok evaluation =>
          obtain ⟨⟨descent, moved⟩, hdescend, h⟩ := exists_of_bind_eq_ok h
          have hmoved := hevaluated.trans (sameStaging_of_descend hdescend)
          cases descent with
          | error cause =>
            cases h
            exact hmoved
          | ok done =>
            cases h
            exact hmoved.trans ⟨rfl, rfl⟩

end Staging

/-! ## Rewards between bounds -/

section Rewards

variable {ν σ : Type} {low high : ℝ} {t t' : Trainer ν ℝ}

/-- All staged rewards lie between the bounds, and revisions give means. -/
structure Scored (low high : ℝ) (t : Trainer ν ℝ) : Prop where
  weight : 0 ≤ t.config.rewardWeight ∧ t.config.rewardWeight ≤ 1
  rewards : ∀ staged ∈ t.staging.transitions.toList, low ≤ staged.reward ∧ staged.reward ≤ high

theorem Scored.of_same (h : Scored low high t) (hsame : SameStaging t t') : Scored low high t' where
  weight := by rw [hsame.config]; exact h.weight
  rewards := by rw [hsame.staging]; exact h.rewards

/-- Without staged transitions there is nothing to show. -/
theorem Scored.of_empty (h : Scored low high t) (hconfig : t'.config = t.config)
    (hempty : t'.staging.transitions = #[]) : Scored low high t' where
  weight := by rw [hconfig]; exact h.weight
  rewards := by rw [hempty]; exact fun _ hmem => nomatch hmem

theorem Scored.stage (h : Scored low high t) {transition : Transition ℝ}
    (hreward : low ≤ transition.reward ∧ transition.reward ≤ high)
    (hstage : t.stage transition = .ok t') : Scored low high t' := by
  obtain ⟨staging, hstaging, rfl⟩ := stage_eq_ok_iff.1 hstage
  obtain ⟨-, rfl⟩ := StagingArea.stage_eq_ok_iff.1 hstaging
  refine ⟨h.weight, ?_⟩
  rw [Array.toList_push, List.forall_mem_append, List.forall_mem_singleton]
  exact ⟨h.rewards, hreward⟩

theorem Scored.revise (h : Scored low high t) {outcome : ℝ}
    (houtcome : low ≤ outcome ∧ outcome ≤ high) : Scored low high (t.revise outcome) where
  weight := h.weight
  rewards := by
    rw [Trainer.revise, StagingArea.revise, Array.toList_map, List.forall_mem_map]
    exact fun staged hstaged =>
      mean_mem_between h.weight.1 h.weight.2 (h.rewards staged hstaged) houtcome

theorem Scored.revise_all (h : Scored low high t) {outcomes : List ℝ}
    (houtcomes : ∀ outcome ∈ outcomes, low ≤ outcome ∧ outcome ≤ high) :
    Scored low high (outcomes.foldl Trainer.revise t) := by
  induction outcomes generalizing t with
  | nil => exact h
  | cons outcome rest ih =>
    rw [List.forall_mem_cons] at houtcomes
    exact ih (h.revise houtcomes.1) houtcomes.2

variable [Trainable ν ℝ]

/-- Only revisions change staged rewards. -/
theorem scored_of_performs {op : Operation ℝ} {answer : Answer ℝ} (h : Scored low high t)
    (hscores : op.Scores low high) (hop : Performs t op answer t') : Scored low high t' := by
  cases hop with
  | predict | refuse | save => exact h
  | stage hstage => exact h.stage hscores hstage
  | revise outcome => exact h.revise hscores
  | commit | clear => exact h.of_empty rfl rfl
  | push transition => exact h.of_same ⟨rfl, rfl⟩
  | optimize hlearn => exact h.of_same (sameStaging_of_learn hlearn)

variable [SnapshotStore (StateM σ) ℝ]

/-- A trainer is built without staged transitions, with an accepted weight. -/
theorem scored_of_fromNetwork {config : Config ℝ} {network : ν} {first : Trainer ν ℝ}
    (h : FromNetwork σ config network first) : Scored low high first := by
  obtain ⟨hvalid, policy, _, hstart⟩ := start_of_fromNetwork h
  obtain ⟨target, _, hstart⟩ := exists_of_bind_eq_ok hstart
  have hweight := (Config.holds_of_validate hvalid).2.2.1
  cases target with
  | error cause => cases hstart
  | ok target =>
    cases hstart
    refine ⟨?_, fun _ hmem => nomatch hmem⟩
    simpa [UnitInterval.holds] using hweight

/-- Between bounds that all rewards and outcomes keep, all staged rewards stay. -/
theorem scored_of_run {config : Config ℝ} {network : ν} {first : Trainer ν ℝ}
    {history : History ℝ} (hfrom : FromNetwork σ config network first)
    (run : Run σ first history t) (hscores : ∀ entry ∈ history, entry.1.Scores low high) :
    Scored low high t := by
  refine run.invariant (fun history t => (∀ entry ∈ history, entry.1.Scores low high) →
    Scored low high t) (fun _ => scored_of_fromNetwork hfrom) ?_ hscores
  intro history t op answer t' ih hop hscores
  rw [List.forall_mem_append, List.forall_mem_singleton] at hscores
  exact scored_of_performs (ih hscores.1) hscores.2 hop

end Rewards

/-- The trainer of a configuration alone is one around the predictor it describes. -/
theorem fromNetwork_of_fromConfig {α σ : Type} [Analysis α] [SnapshotStore (StateM σ) α]
    {config : Config α} {t : Trainer (Network α) α} (h : FromConfig σ config t) :
    ∃ network, FromNetwork σ config network t := by
  obtain ⟨store, store', h⟩ := h
  unfold ofConfig at h
  split at h
  · cases h
  · rename_i hvalid
    split at h
    · cases h
    · rename_i inputSize _
      refine ⟨(Network.drawPredictor inputSize.toNat (config.hiddenSizes.map UInt64.toNat)
        config.hiddenActivation (.ofSeed config.seed)).1, store, store', ?_⟩
      rw [ofNetwork, hvalid]
      exact h

/-- After every run the policy of such a trainer is a predictor. -/
theorem isPredictor_of_run {α σ : Type} [Analysis α] [SnapshotStore (StateM σ) α]
    {config : Config α} {first t : Trainer (Network α) α} {history : History α}
    (hfrom : FromConfig σ config first) (run : Run σ first history t) :
    ∃ width, t.policy.IsPredictor width := by
  obtain ⟨hstarted, inputSize, _, hform⟩ := started_of_fromConfig hfrom
  have hkin := kindred_of_run hstarted.form run
  exact ⟨_, (Network.isPredictor_drawPredictor _ _ _ _).of_form (hkin.policy.trans hform)⟩

/-- Whatever matrix of doubles a network gives, of whatever kind the network is and
whatever has been done to the trainer, the trainer answers with a probability that is
defined and from zero to one, by the tests and as the number that it stands for: with the
first output itself if that is a probability already. It meets a fault or an error
exactly when the network does. A stack of layers refuses exactly the observations of
another length than the number of features that it reports, and the predictor that a
configuration describes answers all others, after every run.

In exact arithmetic, too, what is predicted is a probability. After every run in which
the staged rewards and the outcomes are from zero to one, so are all staged rewards. A
prediction that is then staged as probability and reward keeps them there, however often
they are revised towards such outcomes. -/
theorem predictions_are_probabilities :
    (∀ {ν : Type} [Trainable ν Float] (t : Trainer ν Float) (features : Array Float),
      let answer := Trainable.predict t.policy (.row features)
      (∀ fault, t.predict features = .error fault ↔ answer = .error fault) ∧
      (∀ cause, t.predict features = .ok (.error cause) ↔ answer = .ok (.error cause)) ∧
      ∀ output, answer = .ok (.ok output) → ∃ p, t.predict features = .ok (.ok p) ∧
        p.isNaN = false ∧ 0 ≤ p ∧ p ≤ 1 ∧
        (∃ r, Double.number? p = some r ∧ 0 ≤ r ∧ r ≤ 1) ∧
        ∀ first, output.data[0]? = some first → 0 ≤ first → first ≤ 1 → p = first) ∧
    (∀ (t : Trainer (Network Float) Float) (features : Array Float) (cause : NetworkError),
      t.predict features = .ok (.error cause) ↔ ∃ width, t.policy.inputSize? = some width ∧
        width ≠ features.size ∧ cause = .inputWidth width features.size) ∧
    (∀ {σ : Type} [SnapshotStore (StateM σ) Float] {config : Config Float}
      {first t : Trainer (Network Float) Float} {history : History Float},
      FromConfig σ config first → Run σ first history t → ∀ features : Array Float,
      t.policy.inputSize? = some features.size →
        ∃ p, t.predict features = .ok (.ok p) ∧ p.isNaN = false ∧ 0 ≤ p ∧ p ≤ 1) ∧
    ∀ {ν σ : Type} [Trainable ν ℝ] [SnapshotStore (StateM σ) ℝ] {config : Config ℝ}
      {network : ν} {first t : Trainer ν ℝ} {history : History ℝ},
      FromNetwork σ config network first → Run σ first history t →
      (∀ entry ∈ history, entry.1.Scores 0 1) →
      (∀ staged ∈ t.staging.transitions.toList, 0 ≤ staged.reward ∧ staged.reward ≤ 1) ∧
      ∀ features p, t.predict features = .ok (.ok p) → 0 ≤ p ∧ p ≤ 1 ∧
        ∀ t' (outcomes : List ℝ), t.stage ⟨features, p, p⟩ = .ok t' →
          (∀ outcome ∈ outcomes, 0 ≤ outcome ∧ outcome ≤ 1) →
          ∀ staged ∈ (outcomes.foldl revise t').staging.transitions.toList,
            0 ≤ staged.reward ∧ staged.reward ≤ 1 := by
  refine ⟨fun t features => ⟨predict_eq_error_iff t features, predict_eq_refusal_iff t features,
    fun output houtput => ?_⟩, fun t features cause => ?_,
    fun {_ _ _ _ t _} hfrom run features hsize => ?_, fun hfrom run hscores => ?_⟩
  · have hp : IsProbability (probabilityOf output) := isProbability_probabilityOf output
    obtain ⟨hdefined, hlow, hhigh⟩ := isProbability_iff_double.1 hp
    refine ⟨_, predict_eq_ok_iff.2 ⟨output, houtput, rfl⟩, hdefined, hlow, hhigh,
      Double.exists_number hp.nonneg hp.le_one, fun first hfirst hlow hhigh => ?_⟩
    exact probabilityOf_eq hfirst
      (isProbability_of_atMost (decide_eq_true hlow) (decide_eq_true hhigh))
  · rw [predict_eq_refusal_iff]
    exact Network.predict_eq_error_iff t.policy (.row features) cause
  · obtain ⟨width, hpolicy⟩ := isPredictor_of_run hfrom run
    have hwidth : features.size = width := Option.some.inj (hsize.symm.trans hpolicy.inputSize)
    have houtput : Trainable.predict t.policy (.row features) = .ok (.ok _) :=
      (hpolicy.predict_eq hwidth).1
    have hanswer := predict_eq_ok_iff.2 ⟨_, houtput, rfl⟩
    exact ⟨_, hanswer, isProbability_iff_double.1 (isProbability_of_predict hanswer)⟩
  · have hscored := scored_of_run hfrom run hscores
    refine ⟨hscored.rewards, fun features p hpredict => ?_⟩
    have hp : 0 ≤ p ∧ p ≤ 1 := isProbability_iff_real.1 (isProbability_of_predict hpredict)
    exact ⟨hp.1, hp.2, fun t' outcomes hstage houtcomes =>
      ((hscored.stage hp hstage).revise_all houtcomes).rewards⟩

/-- A trainer whose policy gives every observation back. -/
def echoTrainer : Trainer (Network Float) Float := atStart singleConfig ⟨[]⟩

/-- An undefined output is answered with a probability, and a probability with itself. An
observation that is too short is refused. A prediction of the exact trainer can be staged,
and its reward is a probability after two revisions. -/
theorem predictions_are_probabilities_echoTrainer :
    (∃ p, echoTrainer.predict #[0 / 0] = .ok (.ok p) ∧ p.isNaN = false ∧ 0 ≤ p ∧ p ≤ 1) ∧
    echoTrainer.predict #[0.25, 7] = .ok (.ok 0.25) ∧
    pairTrainer.predict #[1] = .ok (.error (.inputWidth 2 1)) ∧
    ∃ p t', exactTrainer.predict #[1, 2] = .ok (.ok p) ∧
      exactTrainer.stage ⟨#[1, 2], p, p⟩ = .ok t' ∧
      ∀ staged ∈ ([0, 1].foldl revise t').staging.transitions.toList,
        0 ≤ staged.reward ∧ staged.reward ≤ 1 := by
  obtain ⟨hdouble, hrefused, -, hexact⟩ := predictions_are_probabilities
  obtain ⟨-, -, hundefined⟩ := hdouble echoTrainer #[0 / 0]
  obtain ⟨-, -, hquarter⟩ := hdouble echoTrainer #[0.25, 7]
  obtain ⟨p, hp, hdefined, hlow, hhigh, -⟩ := hundefined _ rfl
  obtain ⟨q, hq, -, -, -, -, hsame⟩ := hquarter _ rfl
  rw [hsame 0.25 rfl (by decide +kernel) (by decide +kernel)] at hq
  obtain ⟨network, hfrom⟩ := fromNetwork_of_fromConfig fromConfig_exactTrainer
  obtain ⟨-, hprobability⟩ := hexact hfrom .start fun _ hmem => nomatch hmem
  have hpolicy : exactTrainer.policy.IsPredictor 2 :=
    Network.isPredictor_drawPredictor 2 [] .relu (.ofSeed 1)
  have hcols : (Matrix.row (#[1, 2] : Array ℝ)).cols = 2 := rfl
  obtain ⟨chance, hchance⟩ : ∃ chance, exactTrainer.predict #[1, 2] = .ok (.ok chance) :=
    ⟨_, predict_eq_ok_iff.2 ⟨_, (hpolicy.predict_eq hcols).1, rfl⟩⟩
  have hlength : exactTrainer.staging.featureLength = some 2 := hpolicy.inputSize
  have hstaging : exactTrainer.staging.stage ⟨#[1, 2], chance, chance⟩ = .ok _ :=
    StagingArea.stage_eq_ok_iff.2 ⟨.inr hlength, rfl⟩
  have hstage := stage_eq_ok_iff.2 ⟨_, hstaging, rfl⟩
  exact ⟨⟨p, hp, hdefined, hlow, hhigh⟩, hq, (hrefused _ _ _).2 ⟨2, rfl, by decide, rfl⟩,
    chance, _, hchance, hstage, (hprobability _ _ hchance).2.2 _ _ hstage (by norm_num)⟩

end Trainer

end DeferredReward
