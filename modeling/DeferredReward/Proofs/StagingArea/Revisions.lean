import DeferredReward.Proofs.Arithmetic.Exact
import DeferredReward.Proofs.StagingArea
import Mathlib.Algebra.BigOperators.Fin
import Mathlib.Data.Finset.Max
import Mathlib.Tactic.NormNum
import Mathlib.Tactic.Ring

/-!
# What revisions make of staged rewards

In exact arithmetic a reward that has been revised any number of times is a weighted
mean of itself and of the outcomes: an outcome counts with what its own revision did not
keep, times what all later ones have kept, and the reward with what all of them have
kept. Only the revisions made after a transition was staged count for it. They change
nothing but rewards.

Main statements: `settled_cons`, `toList_changeAll`, `rewards_settled`.
-/

namespace DeferredReward

/-- A revision of rewards. -/
structure Revision (α : Type) where
  /-- The outcome that rewards are moved towards. -/
  outcome : α
  /-- How much of a reward stays. -/
  weight : α

/-- A reward after revisions in order. -/
noncomputable def settled (reward : ℝ) (revisions : List (Revision ℝ)) : ℝ :=
  (revisions.map Revision.weight).prod * reward +
    ∑ j : Fin revisions.length, (1 - revisions[j].weight) *
      ((revisions.drop (j + 1)).map Revision.weight).prod * revisions[j].outcome

theorem settled_nil (reward : ℝ) : settled reward [] = reward := by simp [settled]

/-- A revision before all others counts as if the reward it leaves had been staged. -/
theorem settled_cons (reward : ℝ) (revision : Revision ℝ) (rest : List (Revision ℝ)) :
    settled reward (revision :: rest) =
      settled (StagingArea.revised revision.weight revision.outcome reward) rest := by
  have hsum : ∑ j : Fin (revision :: rest).length, (1 - (revision :: rest)[j].weight) *
        (((revision :: rest).drop (j + 1)).map Revision.weight).prod *
        (revision :: rest)[j].outcome =
      (1 - revision.weight) * (rest.map Revision.weight).prod * revision.outcome +
        ∑ j : Fin rest.length, (1 - rest[j].weight) *
          ((rest.drop (j + 1)).map Revision.weight).prod * rest[j].outcome :=
    Fin.sum_univ_succ _
  rw [settled, settled, hsum, List.map_cons, List.prod_cons, StagingArea.revised]
  ring

/-- A settled reward lies within all bounds of the reward and the outcomes. -/
theorem settled_mem_between {low high reward : ℝ} {revisions : List (Revision ℝ)}
    (hweights : ∀ revision ∈ revisions, 0 ≤ revision.weight ∧ revision.weight ≤ 1)
    (hreward : low ≤ reward ∧ reward ≤ high)
    (houtcomes : ∀ revision ∈ revisions, low ≤ revision.outcome ∧ revision.outcome ≤ high) :
    low ≤ settled reward revisions ∧ settled reward revisions ≤ high := by
  induction revisions generalizing reward with
  | nil => rwa [settled_nil]
  | cons revision rest ih =>
    rw [List.forall_mem_cons] at hweights houtcomes
    rw [settled_cons]
    exact ih hweights.2
      (mean_mem_between hweights.1.1 hweights.1.2 hreward houtcomes.1) houtcomes.2

/-- The number lies between the smallest and the largest of some numbers. -/
def LiesAmong (values : List ℝ) (x : ℝ) : Prop :=
  ∃ low ∈ values, ∃ high ∈ values, low ≤ x ∧ x ≤ high

/-- A settled reward lies between the smallest and the largest of the reward and the outcomes. -/
theorem settled_liesAmong (reward : ℝ) {revisions : List (Revision ℝ)}
    (hweights : ∀ revision ∈ revisions, 0 ≤ revision.weight ∧ revision.weight ≤ 1) :
    LiesAmong (reward :: revisions.map Revision.outcome) (settled reward revisions) := by
  have hne : (reward :: revisions.map Revision.outcome).toFinset.Nonempty :=
    ⟨reward, List.mem_toFinset.2 List.mem_cons_self⟩
  obtain ⟨low, hlow, hleast⟩ := Finset.exists_min_image _ id hne
  obtain ⟨high, hhigh, hgreatest⟩ := Finset.exists_max_image _ id hne
  have hbetween : ∀ x ∈ reward :: revisions.map Revision.outcome, low ≤ x ∧ x ≤ high :=
    fun x hx => ⟨hleast x (List.mem_toFinset.2 hx), hgreatest x (List.mem_toFinset.2 hx)⟩
  rw [List.forall_mem_cons, List.forall_mem_map] at hbetween
  exact ⟨low, List.mem_toFinset.1 hlow, high, List.mem_toFinset.1 hhigh,
    settled_mem_between hweights hbetween.1 hbetween.2⟩

namespace StagingArea

/-- What is done to staged transitions while their outcome is awaited. -/
inductive Change (α : Type) where
  /-- One more transition is staged. -/
  | stage (t : Transition α)
  /-- All rewards are revised. -/
  | revise (revision : Revision α)

/-- The revision that a change is. -/
def Change.revision? {α : Type} : Change α → Option (Revision α)
  | stage _ => none
  | revise revision => some revision

/-- The revisions among changes, in order. -/
def revisions {α : Type} (changes : List (Change α)) : List (Revision α) :=
  changes.filterMap Change.revision?

/-- The transitions that changes stage where the given length is required, each with the
revisions made after it. One of another length is not staged. -/
def stagings {α : Type} :
    (length : Option ℕ) → List (Change α) → List (Transition α × List (Revision α))
  | _, [] => []
  | length, .stage t :: rest =>
    if length = none ∨ length = some t.features.size then
      (t, revisions rest) :: stagings (some t.features.size) rest
    else stagings length rest
  | length, .revise _ :: rest => stagings length rest

/-- The revisions made after a transition are the last ones. -/
theorem suffix_of_mem_stagings {α : Type} {length : Option ℕ} {changes : List (Change α)}
    {entry : Transition α × List (Revision α)} (h : entry ∈ stagings length changes) :
    entry.2 <:+ revisions changes := by
  induction changes generalizing length with
  | nil => cases h
  | cons change rest ih =>
    cases change with
    | stage t =>
      rw [stagings] at h
      split at h
      · obtain rfl | hrest := List.mem_cons.1 h
        · exact List.suffix_refl _
        · exact ih hrest
      · exact ih h
    | revise revision => exact (ih h).trans (List.suffix_cons _ _)

/-- What revisions leave of a transition. -/
noncomputable def settle (t : Transition ℝ) (revisions : List (Revision ℝ)) : Transition ℝ :=
  t.setReward (settled t.reward revisions)

theorem settle_nil (t : Transition ℝ) : settle t [] = t := by
  rw [settle, settled_nil]
  rfl

/-- A revision before all others leaves a transition to be settled by these. -/
theorem settle_cons (t : Transition ℝ) (revision : Revision ℝ) (rest : List (Revision ℝ)) :
    settle t (revision :: rest) =
      settle (t.setReward (revised revision.weight revision.outcome t.reward)) rest := by
  rw [settle, settled_cons]
  rfl

section Changes

variable {α : Type} [Arithmetic α]

/-- The area after a change. A transition that is refused leaves it as it is. -/
def change (s : StagingArea α) : Change α → StagingArea α
  | .stage t => (s.stage t).toOption.getD s
  | .revise revision => s.revise revision.outcome revision.weight

/-- The area after changes in order. -/
def changeAll (s : StagingArea α) (changes : List (Change α)) : StagingArea α :=
  changes.foldl change s

/-- A transition is staged while no length is required or when it has the required one. -/
theorem change_stage (s : StagingArea α) (t : Transition α) :
    s.change (.stage t) =
      if s.featureLength = none ∨ s.featureLength = some t.features.size then
        ⟨s.transitions.push t, some t.features.size⟩
      else s := by
  rw [change]
  split
  · rename_i hfits
    rw [stage_eq_ok_iff.2 ⟨hfits, rfl⟩]
    rfl
  · rename_i hrefused
    cases hstage : s.stage t with
    | error cause => rfl
    | ok s' => exact absurd (stage_eq_ok_iff.1 hstage).1 hrefused

end Changes

/-- The features and probabilities of the staged transitions, in order. -/
def observations {α : Type} (s : StagingArea α) : List (Array α × α) :=
  s.transitions.toList.map fun t => (t.features, t.probability)

/-- After any changes, the transitions there were and those staged since are settled by
the revisions made after them, each in its place. -/
theorem toList_changeAll (s : StagingArea ℝ) (changes : List (Change ℝ)) :
    (s.changeAll changes).transitions.toList =
      s.transitions.toList.map (settle · (revisions changes)) ++
        (stagings s.featureLength changes).map fun (t, later) => settle t later := by
  induction changes generalizing s with
  | nil =>
    have hkept : (s.transitions.toList.map fun t => settle t []) = s.transitions.toList :=
      List.map_id'' settle_nil _
    rw [stagings, List.map_nil, List.append_nil]
    exact hkept.symm
  | cons change rest ih =>
    have hstep : s.changeAll (change :: rest) = (s.change change).changeAll rest := rfl
    rw [hstep, ih]
    cases change with
    | stage t =>
      have hrevisions : revisions (.stage t :: rest) = revisions rest := rfl
      rw [change_stage, stagings, hrevisions]
      split
      · -- The transition is the last one of those settled by the rest, or the first one staged.
        rw [Array.toList_push, List.map_append, List.append_assoc]
        rfl
      · rfl
    | revise revision =>
      have hrevisions : revisions (.revise revision :: rest) = revision :: revisions rest := rfl
      rw [StagingArea.change, revise, stagings, Array.toList_map, List.map_map, hrevisions]
      exact congrArg (· ++ _) (List.map_congr_left fun t _ => (settle_cons t revision _).symm)

/-- What is staged at some moment is found in the next place, settled by what comes after it. -/
theorem getElem?_changeAll (s : StagingArea ℝ) (before after : List (Change ℝ))
    (t : Transition ℝ)
    (hlength : (s.changeAll before).featureLength = none ∨
      (s.changeAll before).featureLength = some t.features.size) :
    (s.changeAll (before ++ .stage t :: after)).transitions[(s.changeAll before).size]? =
      some (settle t (revisions after)) := by
  have hsplit : s.changeAll (before ++ .stage t :: after) =
      ((s.changeAll before).change (.stage t)).changeAll after := List.foldl_append
  have hplace : (s.changeAll before).size =
      ((s.changeAll before).transitions.toList.map (settle · (revisions after))).length :=
    (List.length_map _).symm
  rw [hsplit, change_stage, if_pos hlength, ← Array.getElem?_toList, toList_changeAll,
    Array.toList_push, List.map_append, List.append_assoc, hplace, List.getElem?_append_right
    (Nat.le_refl _), Nat.sub_self]
  rfl

/-- Whatever is staged and revised in exact arithmetic, the transitions there were come
first and those staged since follow in order. The reward of each is the product of the
weights of the revisions made after it was staged times its reward, plus each of their
outcomes times what its revision did not keep and all later ones did; earlier revisions
have no part in it. With weights from zero to one it lies between the smallest and the
largest of the reward and these outcomes. The number, the order, the features and the
probabilities are those of what was staged, and no revision changes them. -/
theorem rewards_settled (s : StagingArea ℝ) (changes : List (Change ℝ)) :
    let staged := stagings s.featureLength changes
    ((s.changeAll changes).transitions.toList =
      s.transitions.toList.map (settle · (revisions changes)) ++
        staged.map fun (t, later) => settle t later) ∧
    (∀ before t after, changes = before ++ .stage t :: after →
      (s.changeAll before).featureLength = none ∨
        (s.changeAll before).featureLength = some t.features.size →
      (s.changeAll changes).transitions[(s.changeAll before).size]? =
        some (settle t (revisions after))) ∧
    ((∀ revision ∈ revisions changes, 0 ≤ revision.weight ∧ revision.weight ≤ 1) →
      ∀ entry ∈ s.transitions.toList.map (·, revisions changes) ++ staged,
        LiesAmong (entry.1.reward :: entry.2.map Revision.outcome)
          (settled entry.1.reward entry.2)) ∧
    (s.changeAll changes).observations =
      (s.transitions.toList ++ staged.map Prod.fst).map
        (fun t => (t.features, t.probability)) ∧
    ∀ revision, ((s.changeAll changes).change (.revise revision)).observations =
      (s.changeAll changes).observations := by
  intro staged
  have hlist := toList_changeAll s changes
  refine ⟨hlist, ?_, fun hweights entry hentry => ?_, ?_, fun revision => ?_⟩
  · rintro before t after rfl hlength
    exact getElem?_changeAll s before after t hlength
  · refine settled_liesAmong _ fun revision hrevision => hweights revision ?_
    obtain hthere | hstaged := List.mem_append.1 hentry
    · obtain ⟨t, _, rfl⟩ := List.mem_map.1 hthere
      exact hrevision
    · exact (suffix_of_mem_stagings hstaged).subset hrevision
  · rw [observations, hlist, List.map_append, List.map_append, List.map_map, List.map_map,
      List.map_map]
    rfl
  · rw [change, observations, revise, Array.toList_map, List.map_map]
    rfl

/-- Two transitions are staged, each before a revision of the given weight. -/
noncomputable def interleaved (first second : ℝ) : List (Change ℝ) :=
  [.stage ⟨#[0], 1, 1⟩, .revise ⟨0, first⟩, .stage ⟨#[1], 0, 0⟩, .revise ⟨1, second⟩]

/-- With a half and a quarter of each reward kept, they end as `1 / 8 + 3 / 4` and `3 / 4`. -/
theorem rewards_settled_interleaved :
    ((ofLength none).changeAll (interleaved (1 / 2) (1 / 4))).transitions.toList =
        [⟨#[0], 1, 7 / 8⟩, ⟨#[1], 0, 3 / 4⟩] ∧
      LiesAmong [1, 0, 1] (settled 1 [⟨0, 1 / 2⟩, ⟨1, 1 / 4⟩]) := by
  have hrevisions : revisions (interleaved (1 / 2) (1 / 4)) =
      [⟨0, 1 / 2⟩, ⟨1, 1 / 4⟩] := rfl
  have hstagings : stagings none (interleaved (1 / 2) (1 / 4)) =
      [(⟨#[0], 1, 1⟩, [⟨0, 1 / 2⟩, ⟨1, 1 / 4⟩]), (⟨#[1], 0, 0⟩, [⟨1, 1 / 4⟩])] := rfl
  obtain ⟨hlist, -, hbetween, -⟩ := rewards_settled (ofLength none) (interleaved (1 / 2) (1 / 4))
  have hweights : ∀ revision ∈ revisions (interleaved (1 / 2) (1 / 4)),
      0 ≤ revision.weight ∧ revision.weight ≤ 1 := by
    norm_num [hrevisions]
  refine ⟨hlist.trans ?_, hbetween hweights (⟨#[0], 1, 1⟩, [⟨0, 1 / 2⟩, ⟨1, 1 / 4⟩])
    (List.mem_append_right _ List.mem_cons_self)⟩
  have hlength : (ofLength none : StagingArea ℝ).featureLength = none := rfl
  have hempty : (ofLength none : StagingArea ℝ).transitions.toList = [] := rfl
  rw [hlength, hempty, hstagings]
  norm_num [settle, settled_cons, settled_nil, revised, Transition.setReward]

end StagingArea

end DeferredReward
