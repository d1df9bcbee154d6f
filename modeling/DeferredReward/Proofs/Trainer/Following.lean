import DeferredReward.Proofs.Parameters.Elements
import DeferredReward.Proofs.Trainer.Exact
import DeferredReward.Proofs.Trainer.Milestones
import Mathlib.Algebra.BigOperators.Fin
import Mathlib.Tactic.Ring

/-!
# How the target follows the policy

In exact arithmetic the target is a weighted mean of all policies so far, those
of later steps with more weight: a policy that is `n` executed steps old has the
weight `w * (1 - w) ^ n`, and what is missing to one is that of the first
policy. Skipped and failed steps and all other operations leave the mean alone.

Main statements: `followed_eq_sum`, `exists_le_followed_le`,
`target_is_weighted_mean`.
-/

namespace DeferredReward.Trainer

section Mean

variable {ι : Type} {weight : ℝ} (value : ι → ℝ)

/-- The number that has followed values from a start: each value in turn draws it
towards itself. -/
def followed (weight : ℝ) (start : ℝ) (passed : List ι) : ℝ :=
  passed.foldl (fun target x => weight * value x + (1 - weight) * target) start

theorem followed_append (start : ℝ) (passed : List ι) (x : ι) :
    followed value weight start (passed ++ [x]) =
      weight * value x + (1 - weight) * followed value weight start passed := by
  rw [followed, List.foldl_append]
  rfl

/-- What has followed values is their weighted sum. -/
theorem followed_eq_sum (start : ℝ) (passed : List ι) :
    followed value weight start passed = (1 - weight) ^ passed.length * start +
      ∑ i : Fin passed.length,
        weight * (1 - weight) ^ (passed.length - (i + 1)) * value passed[i] := by
  -- By induction on the values, from any start: the first one is part of the next start.
  induction passed generalizing start with
  | nil => simp [followed]
  | cons x rest ih =>
    have hstep : followed value weight start (x :: rest) =
        followed value weight (weight * value x + (1 - weight) * start) rest := rfl
    have hsum : ∑ i : Fin (x :: rest).length,
        weight * (1 - weight) ^ ((x :: rest).length - (i + 1)) * value (x :: rest)[i] =
        weight * (1 - weight) ^ rest.length * value x + ∑ i : Fin rest.length,
          weight * (1 - weight) ^ (rest.length - (i + 1)) * value rest[i] := by
      refine (Fin.sum_univ_succ _).trans (congrArg _ (Finset.sum_congr rfl fun i _ => ?_))
      have hage : (x :: rest).length - (i.succ.val + 1) = rest.length - (i.val + 1) := by
        rw [List.length_cons, Fin.val_succ]
        omega
      rw [hage]
      rfl
    rw [hstep, ih, hsum, List.length_cons]
    ring

/-- With the weight one the last value is taken. -/
theorem followed_one (start : ι) (passed : List ι) :
    followed value 1 (value start) passed = value (passed.getLast?.getD start) := by
  rcases List.eq_nil_or_concat passed with rfl | ⟨before, last, rfl⟩
  · rfl
  · rw [List.concat_eq_append, followed_append, List.getLast?_append, List.getLast?_singleton,
      Option.some_or, Option.getD_some]
    ring

/-- What has followed values within bounds from a start within them lies within them. -/
theorem followed_mem_between {low high start : ℝ} {passed : List ι} (hpos : 0 ≤ weight)
    (hle : weight ≤ 1) (hstart : low ≤ start ∧ start ≤ high)
    (hpassed : ∀ x ∈ passed, low ≤ value x ∧ value x ≤ high) :
    low ≤ followed value weight start passed ∧ followed value weight start passed ≤ high := by
  induction passed generalizing start with
  | nil => exact hstart
  | cons x rest ih =>
    rw [List.forall_mem_cons] at hpassed
    exact ih (mean_mem_between hpos hle hpassed.1 hstart) hpassed.2

end Mean

variable {σ : Type} [SnapshotStore (StateM σ) ℝ] {config : Config ℝ}
  {first t : Trainer (Network ℝ) ℝ} {history : History ℝ} {passed : List (Trainer (Network ℝ) ℝ)}

/-- The element of a trainer's policy. -/
noncomputable def policyElement (name : String) (row col : ℕ) (t : Trainer (Network ℝ) ℝ) : ℝ :=
  t.policy.parameters.element name row col

/-- The target has followed the policies of the executed steps. -/
theorem Milestones.target_eq_followed (hstarted : Started config first)
    (h : Milestones σ first history passed t) (name : String) (row col : ℕ) :
    t.target.parameters.element name row col =
      followed (policyElement name row col) config.blendWeight
        (policyElement name row col first) passed := by
  refine h.invariant hstarted.form
    (fun passed t => t.target.parameters.element name row col =
      followed (policyElement name row col) config.blendWeight
        (policyElement name row col first) passed) ?_ ?_ ?_
  · rw [hstarted.parameters]
    rfl
  · intro passed t t' hfollows hsame
    rw [hsame.target]
    exact hfollows
  · intro passed t gradients t' hkin hkin' hfollows hadvances
    have hlayout : t'.policy.parameters.layout = t.target.parameters.layout :=
      Network.layout_of_form (hkin'.policy.trans hkin.target.symm)
    have hconfig : t.config = config := hkin.config.trans hstarted.config_eq
    have hblend := Parameters.element_of_blend_real hlayout hadvances.target name row col
    rw [hblend, followed_append, hfollows, hconfig]
    rfl

/-- The policy is the one of the last executed step. -/
theorem Milestones.policy_eq (hform : first.target.form = first.policy.form)
    (h : Milestones σ first history passed t) :
    t.policy.parameters = (passed.getLast?.getD first).policy.parameters := by
  refine h.invariant hform
    (fun passed t => t.policy.parameters = (passed.getLast?.getD first).policy.parameters)
    rfl ?_ ?_
  · intro passed t t' hlast hsame
    rw [hsame.policy]
    exact hlast
  · intro passed t gradients t' _ _ _ _
    rw [List.getLast?_append, List.getLast?_singleton, Option.some_or, Option.getD_some]

/-- A target that is blended with all of the policy is the policy. -/
theorem Milestones.target_eq_policy (hstarted : Started config first)
    (hweight : config.blendWeight = 1) (h : Milestones σ first history passed t) :
    t.target.parameters = t.policy.parameters := by
  have hkin := kindred_of_run hstarted.form h.run
  refine Parameters.ext_element (Network.layout_of_form hkin.form) fun name row col => ?_
  rw [h.target_eq_followed hstarted, hweight, followed_one, h.policy_eq hstarted.form]
  rfl

/-- In exact arithmetic and after any run, with one policy for each executed step,
every element of the target is the weighted mean of those of the policies, the
first one included, and lies within their bounds. With the weight one it is the
element of the policy. -/
theorem target_is_weighted_mean (hbuilt : Built σ config first) (hrun : Run σ first history t) :
    (∃ passed, Milestones σ first history passed t) ∧
    ∀ passed, Milestones σ first history passed t →
      passed.length = history.executed ∧
      t.policy.parameters = (passed.getLast?.getD first).policy.parameters ∧
      t.target.parameters.layout = first.policy.parameters.layout ∧
      (∀ name row col, t.target.parameters.element name row col =
        (1 - config.blendWeight) ^ passed.length * policyElement name row col first +
          ∑ i : Fin passed.length,
            config.blendWeight * (1 - config.blendWeight) ^ (passed.length - (i + 1)) *
              policyElement name row col passed[i]) ∧
      (∀ name row col low high,
        (∀ s ∈ first :: passed,
          low ≤ policyElement name row col s ∧ policyElement name row col s ≤ high) →
        low ≤ t.target.parameters.element name row col ∧
          t.target.parameters.element name row col ≤ high) ∧
      (config.blendWeight = 1 → t.target.parameters = t.policy.parameters) := by
  have hstarted := started_of_built hbuilt
  have hkin := kindred_of_run hstarted.form hrun
  obtain ⟨hpos, hle⟩ := Config.blendWeight_mem hstarted.valid
  refine ⟨exists_milestones hrun, fun passed h => ⟨h.length_eq, h.policy_eq hstarted.form,
    Network.layout_of_form hkin.target, ?_, ?_, fun hone => h.target_eq_policy hstarted hone⟩⟩
  · intro name row col
    rw [h.target_eq_followed hstarted, followed_eq_sum]
  · intro name row col low high hbounds
    rw [h.target_eq_followed hstarted]
    rw [List.forall_mem_cons] at hbounds
    exact followed_mem_between _ hpos.le hle hbounds.1 hbounds.2

/-- After one executed step with the weight one half, the target is half way
between the first policy and the one that the step has led to. -/
theorem target_is_weighted_mean_exactTrainer :
    ∃ history t, Run (Shelf ℝ) exactTrainer history t ∧ history.executed = 1 ∧
      ∀ name row col, t.target.parameters.element name row col =
        (policyElement name row col exactTrainer + policyElement name row col t) / 2 := by
  obtain ⟨history, t, hrun, hone⟩ := exists_exact_run
  obtain ⟨⟨passed, hpassed⟩, hmean⟩ :=
    target_is_weighted_mean (.inl fromConfig_exactTrainer) hrun
  obtain ⟨hlength, hpolicy, _, hsum, _, _⟩ := hmean passed hpassed
  rw [hone] at hlength
  obtain ⟨last, rfl⟩ := List.length_eq_one_iff.1 hlength
  refine ⟨history, t, hrun, hone, fun name row col => ?_⟩
  have hlast : policyElement name row col t = policyElement name row col last :=
    congrArg (Parameters.element · name row col) hpolicy
  have hweight : exactConfig.blendWeight = 1 / 2 := by
    change (0.5 : ℝ) = 1 / 2
    norm_num
  have hterm : ∑ i : Fin [last].length, (1 / 2 : ℝ) * (1 - 1 / 2) ^ ([last].length - (i + 1)) *
      policyElement name row col [last][i] = 1 / 2 * policyElement name row col last := by simp
  rw [hsum, hlast, hweight, hterm, List.length_singleton]
  ring

end DeferredReward.Trainer
