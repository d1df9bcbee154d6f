import DeferredReward.Proofs.StagingArea
import DeferredReward.Proofs.Trainer.Start

/-!
# The way of the transitions through a trainer

A ledger follows the transitions of a run on paper: those that are staged, and
everything that has ever been put into the memory. It pays no heed to
predictions, training steps and snapshots. The staged transitions of a trainer
are those of its ledger, and its memory holds the end of the ledger's log: no
transition is lost, doubled or moved, whatever is learned in between.

Main statement: `refines_ledger`.
-/

namespace DeferredReward

/-- The transitions of a run on paper. -/
structure Ledger (α : Type) where
  /-- The number of features that a staged observation must have, once it is fixed. -/
  width : Option Nat
  /-- The staged transitions in order. -/
  pending : List (Transition α)
  /-- The transitions put into the memory, the first one first. -/
  log : List (Transition α)

namespace Ledger

variable {α : Type}

/-- The ledger before any operation. -/
def opening (width : Option Nat) : Ledger α := ⟨width, [], []⟩

/-- Every staged observation has the required number of features. -/
def Even (l : Ledger α) : Prop := ∀ t ∈ l.pending, l.width = some t.features.size

theorem even_opening (width : Option Nat) : (opening width : Ledger α).Even :=
  fun _ hmem => nomatch hmem

/-- Whether an observation has the required number of features, if one is fixed. -/
abbrev Admits (l : Ledger α) (t : Transition α) : Prop :=
  l.width = none ∨ l.width = some t.features.size

variable [Arithmetic α]

/-- The ledger after an operation, when `keep` of a reward stays in a revision. -/
def after (keep : α) (l : Ledger α) : Operation α → Ledger α
  | .stage t =>
    if l.Admits t then ⟨some t.features.size, l.pending ++ [t], l.log⟩ else l
  | .revise outcome =>
    { l with pending := l.pending.map fun t =>
        { t with reward := keep * t.reward + (1 - keep) * outcome } }
  | .commit => { l with pending := [], log := l.log ++ l.pending }
  | .clear => { l with pending := [] }
  | .push t => { l with log := l.log ++ [t] }
  | .predict _ | .optimize | .save => l

/-- The ledger after operations in order. -/
def replay (keep : α) (l : Ledger α) (ops : List (Operation α)) : Ledger α :=
  ops.foldl (after keep) l

/-- The ledger of a history that begins with the given requirement. -/
def ofHistory (keep : α) (width : Option Nat) (history : History α) : Ledger α :=
  (opening width).replay keep (history.map Prod.fst)

/-- The answers that the ledger allows: a transition is staged when it is
admitted, and a commit tells how many were staged. -/
def Allows (l : Ledger α) : Operation α → Answer α → Prop
  | .stage t, .staged answer => answer = .ok () ∧ l.Admits t ∨
      ∃ width, l.width = some width ∧ width ≠ t.features.size ∧
        answer = .error ⟨width, t.features.size⟩
  | .commit, .committed count => count = l.pending.length
  | .stage _, _ | .commit, _ => False
  | _, _ => True

/-- Every operation of the history gets an answer that the ledger then allows. -/
def AllowsAll (keep : α) (l : Ledger α) : History α → Prop
  | [] => True
  | (op, answer) :: rest => l.Allows op answer ∧ (l.after keep op).AllowsAll keep rest

theorem ofHistory_append (keep : α) (width : Option Nat) (history : History α)
    (op : Operation α) (answer : Answer α) :
    ofHistory keep width (history ++ [(op, answer)]) =
      (ofHistory keep width history).after keep op := by
  rw [ofHistory, List.map_append, replay, List.foldl_append]
  rfl

theorem allowsAll_append {keep : α} {l : Ledger α} {history : History α} {op : Operation α}
    {answer : Answer α} (h : l.AllowsAll keep history)
    (hlast : (l.replay keep (history.map Prod.fst)).Allows op answer) :
    l.AllowsAll keep (history ++ [(op, answer)]) := by
  induction history generalizing l with
  | nil => exact ⟨hlast, trivial⟩
  | cons entry rest ih => exact ⟨h.1, ih h.2 hlast⟩

/-- The number of features of an observation that an operation stages. -/
def stagedWidth? : Operation α → Option Nat
  | .stage t => some t.features.size
  | _ => none

/-- An operation fixes the required number of features at most once. -/
theorem width_after (keep : α) (l : Ledger α) (op : Operation α) :
    (l.after keep op).width = l.width.or (stagedWidth? op) := by
  cases op with
  | stage t =>
    rw [after, stagedWidth?]
    split
    · rename_i hadmits
      rcases hadmits with hnone | hsome
      · rw [hnone, Option.none_or]
      · rw [hsome, Option.some_or]
    · rename_i hrefused
      cases hwidth : l.width with
      | none => exact absurd (.inl hwidth) hrefused
      | some width => exact (Option.some_or ..).symm
  | predict | revise | commit | clear | push | optimize | save => exact (Option.or_none ..).symm

/-- The required number of features is the given one, or that of the first
observation ever staged. -/
theorem width_replay (keep : α) (l : Ledger α) (ops : List (Operation α)) :
    (l.replay keep ops).width = l.width.or (ops.findSome? stagedWidth?) := by
  induction ops generalizing l with
  | nil => exact (Option.or_none ..).symm
  | cons op rest ih =>
    have hstep : l.replay keep (op :: rest) = (l.after keep op).replay keep rest := rfl
    rw [hstep, ih, width_after, Option.or_assoc, List.findSome?_cons]
    cases stagedWidth? op with
    | none => rw [Option.none_or]
    | some width => rw [Option.some_or]

theorem even_after {keep : α} {l : Ledger α} (h : l.Even) (op : Operation α) :
    (l.after keep op).Even := by
  cases op with
  | stage t =>
    rw [after]
    split
    · rename_i hadmits
      intro staged hstaged
      rcases List.mem_append.1 hstaged with hold | hnew
      · have hwidth := h staged hold
        rcases hadmits with hnone | hsome
        · rw [hwidth] at hnone
          cases hnone
        · rw [← hsome, hwidth]
      · rw [List.mem_singleton.1 hnew]
    · exact h
  | revise outcome =>
    intro revised hrevised
    obtain ⟨t, ht, rfl⟩ := List.mem_map.1 hrevised
    exact h t ht
  | commit | clear => exact fun _ hmem => nomatch hmem
  | predict | push | optimize | save => exact h

theorem even_replay {keep : α} {l : Ledger α} (h : l.Even) (ops : List (Operation α)) :
    (l.replay keep ops).Even := by
  induction ops generalizing l with
  | nil => exact h
  | cons op rest ih => exact ih (even_after h op)

end Ledger

namespace Trainer

variable {α σ : Type}

/-- The staged transitions are those of the ledger, and the memory shows the end
of its log. -/
structure Follows (l : Ledger α) (t : Trainer (Network α) α) : Prop where
  width : t.staging.featureLength = l.width
  pending : t.staging.transitions.toList = l.pending
  contents : t.memory.toList = l.log.drop (l.log.length - t.memory.capacity)

/-- Learning has no influence on what a trainer shows of its ledger. -/
theorem Follows.of_same {l : Ledger α} {t t' : Trainer (Network α) α} (h : Follows l t)
    (hstaging : t'.staging = t.staging) (hcontents : t'.memory.toList = t.memory.toList)
    (hcapacity : t'.memory.capacity = t.memory.capacity) : Follows l t' where
  width := by rw [hstaging, h.width]
  pending := by rw [hstaging, h.pending]
  contents := by rw [hcontents, hcapacity, h.contents]

/-- Staging accepts what the ledger admits. -/
theorem stage_of_follows {l : Ledger α} {t : Trainer (Network α) α} (h : Follows l t)
    (transition : Transition α) :
    (l.Admits transition ∧ t.stage transition = .ok { t with
      staging := ⟨t.staging.transitions.push transition, some transition.features.size⟩ }) ∨
    ∃ width, l.width = some width ∧ width ≠ transition.features.size ∧
      t.stage transition = .error ⟨width, transition.features.size⟩ := by
  have hwidth := h.width
  cases hl : l.width with
  | none =>
    rw [hl] at hwidth
    have hstage := StagingArea.stage_of_none hwidth transition
    exact .inl ⟨.inl hl, stage_eq_ok_iff.2 ⟨_, hstage, rfl⟩⟩
  | some width =>
    rw [hl] at hwidth
    have hstage := StagingArea.stage_of_some hwidth transition
    by_cases hfits : width = transition.features.size
    · subst hfits
      rw [if_pos rfl] at hstage
      exact .inl ⟨.inr hl, stage_eq_ok_iff.2 ⟨_, hstage, rfl⟩⟩
    · rw [if_neg hfits] at hstage
      exact .inr ⟨width, rfl, hfits, stage_eq_error hstage⟩

variable [Analysis α]

/-- Every operation does to the trainer what it does to the ledger, and answers
what the ledger allows. -/
theorem follows_of_performs {l : Ledger α} {t t' : Trainer (Network α) α} {op : Operation α}
    {answer : Answer α} (hform : t.target.form = t.policy.form) (h : Follows l t)
    (hop : Performs t op answer t') :
    Follows (l.after t.config.rewardWeight op) t' ∧ l.Allows op answer := by
  cases hop with
  | predict | save => exact ⟨h, trivial⟩
  | stage hstage =>
    rename_i transition
    obtain ⟨hadmits, haccepted⟩ | ⟨width, _, _, hrefused⟩ := stage_of_follows h transition
    · rw [hstage] at haccepted
      cases haccepted
      rw [Ledger.after, if_pos hadmits]
      refine ⟨⟨rfl, ?_, h.contents⟩, .inl ⟨rfl, hadmits⟩⟩
      rw [Array.toList_push, h.pending]
    · rw [hstage] at hrefused
      cases hrefused
  | refuse hstage =>
    rename_i transition cause
    obtain ⟨_, haccepted⟩ | ⟨width, hwidth, hne, hrefused⟩ := stage_of_follows h transition
    · rw [hstage] at haccepted
      cases haccepted
    · rw [hstage] at hrefused
      cases hrefused
      have hnot : ¬l.Admits transition := by
        rintro (hnone | hsome)
        · rw [hwidth] at hnone
          cases hnone
        · rw [hwidth] at hsome
          exact hne (Option.some.inj hsome)
      rw [Ledger.after, if_neg hnot]
      exact ⟨h, .inr ⟨width, hwidth, hne, rfl⟩⟩
  | revise outcome =>
    refine ⟨⟨h.width, ?_, h.contents⟩, trivial⟩
    change (t.staging.transitions.map _).toList = l.pending.map _
    rw [Array.toList_map, h.pending]
    rfl
  | commit =>
    refine ⟨⟨h.width, rfl, ?_⟩, ?_⟩
    · change (t.memory.pushAll t.staging.transitions.toList).toList = _
      rw [ReplayMemory.toList_pushAll_of_window h.contents, h.pending]
      change _ = List.drop (_ - (t.memory.pushAll t.staging.transitions.toList).capacity) _
      rw [ReplayMemory.capacity_pushAll]
      rfl
    · change t.staging.transitions.size = l.pending.length
      rw [← h.pending, Array.length_toList]
  | clear => exact ⟨⟨h.width, rfl, h.contents⟩, trivial⟩
  | push transition =>
    refine ⟨⟨h.width, h.pending, ?_⟩, trivial⟩
    change (t.memory.push transition).toList = List.drop (_ - (t.memory.push transition).capacity) _
    rw [ReplayMemory.toList_push_of_window h.contents, ReplayMemory.capacity_push]
    rfl
  | optimize hlearn =>
    refine ⟨?_, trivial⟩
    -- Whatever a step does, it does not touch what the ledger speaks of.
    obtain ⟨_, _, rfl⟩ | ⟨_, _, _, hsame⟩ | ⟨_, _, moved, _, hdescends, rfl, _⟩ :=
      learn_cases hform hlearn
    · exact h
    · exact h.of_same hsame.staging hsame.contents hsame.capacity
    · exact h.of_same hdescends.staging hdescends.contents hdescends.capacity

/-- After any run the trainer shows the ledger of its history. -/
theorem follows_of_run [SnapshotStore (StateM σ) α] {config : Config α}
    {first t : Trainer (Network α) α} {history : History α} (hstarted : Started config first)
    (hrun : Run σ first history t) :
    Follows (Ledger.ofHistory config.rewardWeight first.policy.inputSize? history) t ∧
      (Ledger.opening first.policy.inputSize?).AllowsAll config.rewardWeight history := by
  have hfirst : Follows (Ledger.opening first.policy.inputSize?) first := by
    rw [hstarted.eq]
    exact ⟨rfl, rfl, List.drop_nil.symm⟩
  have hboth := hrun.invariant
    (fun history t => Kindred first t ∧
      Follows (Ledger.ofHistory config.rewardWeight first.policy.inputSize? history) t ∧
      (Ledger.opening first.policy.inputSize?).AllowsAll config.rewardWeight history)
    ⟨⟨rfl, rfl, hstarted.form, rfl⟩, hfirst, trivial⟩ <| by
      intro history t op answer t' ⟨hkin, hfollows, hallows⟩ hop
      have hform : t.target.form = t.policy.form := hkin.target.trans hkin.policy.symm
      obtain ⟨hnext, hanswer⟩ := follows_of_performs hform hfollows hop
      rw [hkin.config, hstarted.config_eq] at hnext
      rw [Ledger.ofHistory_append]
      exact ⟨kindred_of_performs hkin hop, hnext, Ledger.allowsAll_append hallows hanswer⟩
  exact hboth.2

/-- After any run the staged transitions and the memory are those of the ledger,
which a memory of limited capacity shows the end of. The required number of
features is that of the network or else of the first observation ever staged;
once fixed it stays, and every staged observation has it. -/
theorem refines_ledger [SnapshotStore (StateM σ) α] {config : Config α}
    {first t : Trainer (Network α) α} {history : History α} (hbuilt : Built σ config first)
    (hrun : Run σ first history t) :
    let ledgerOf := Ledger.ofHistory config.rewardWeight first.policy.inputSize?
    let ledger := ledgerOf history
    t.staging.transitions.toList = ledger.pending ∧
      t.memory.toList = ledger.log.drop (ledger.log.length - config.memorySize.toNat) ∧
      (Ledger.opening first.policy.inputSize?).AllowsAll config.rewardWeight history ∧
      t.staging.featureLength = ledger.width ∧
      ledger.width = t.policy.inputSize?.or
        ((history.map Prod.fst).findSome? Ledger.stagedWidth?) ∧
      (∀ earlier width, earlier <+: history → (ledgerOf earlier).width = some width →
        ledger.width = some width) ∧
      ∀ staged ∈ ledger.pending, ledger.width = some staged.features.size := by
  intro ledgerOf ledger
  have hstarted := started_of_built hbuilt
  have hkin : Kindred first t := kindred_of_run hstarted.form hrun
  have hcapacity : t.memory.capacity = config.memorySize.toNat := by
    rw [hkin.capacity, hstarted.eq]
    rfl
  have hwidth : ∀ history : History α, (ledgerOf history).width =
      first.policy.inputSize?.or ((history.map Prod.fst).findSome? Ledger.stagedWidth?) :=
    fun history => Ledger.width_replay _ _ _
  obtain ⟨hfollows, hallows⟩ := follows_of_run hstarted hrun
  refine ⟨hfollows.pending, ?_, hallows, hfollows.width, ?_, ?_, ?_⟩
  · rw [← hcapacity]
    exact hfollows.contents
  · rw [Network.inputSize?_of_form hkin.policy]
    exact hwidth history
  · rintro earlier width ⟨later, rfl⟩ hearlier
    rw [hwidth] at hearlier
    change (ledgerOf (earlier ++ later)).width = _
    rw [hwidth, List.map_append, List.findSome?_append, ← Option.or_assoc, hearlier,
      Option.some_or]
  · exact Ledger.even_replay (Ledger.even_opening _) _

/-- A commit and two pushes fill a memory of two twice over: the transition that
was committed is the oldest one and is forgotten. -/
theorem refines_ledger_pairTrainer :
    ∃ t, Run FileTree pairTrainer [(.stage pairTransition, .staged (.ok ())),
        (.stage wideTransition, .staged (.error ⟨2, 3⟩)), (.commit, .committed 1),
        (.push wideTransition, .done), (.push wideTransition, .done)] t ∧
      t.staging.transitions.toList = [] ∧ t.memory.toList = [wideTransition, wideTransition] ∧
      t.staging.featureLength = some 2 := by
  have hrun : Run FileTree pairTrainer [(.stage pairTransition, .staged (.ok ())),
      (.stage wideTransition, .staged (.error ⟨2, 3⟩)), (.commit, .committed 1),
      (.push wideTransition, .done), (.push wideTransition, .done)] _ :=
    .next (.next (.next (.next (.next .start ⟨.empty, .empty, rfl⟩) ⟨.empty, .empty, rfl⟩)
      ⟨.empty, .empty, rfl⟩) ⟨.empty, .empty, rfl⟩) ⟨.empty, .empty, rfl⟩
  obtain ⟨hpending, hcontents, _, hwidth, _⟩ := refines_ledger built_pairTrainer hrun
  exact ⟨_, hrun, hpending, hcontents, hwidth⟩

end Trainer

end DeferredReward
