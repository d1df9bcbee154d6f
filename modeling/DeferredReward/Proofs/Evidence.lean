import DeferredReward.Proofs.ReplayMemory
import DeferredReward.StagingArea

/-!
# What training reads of transitions

Of a transition training reads the features and the reward, which are its
evidence; the predicted probability is kept for others to look at. Memories and
staging areas that resemble each other hold the same evidence, and remain so
whatever is done to both: neither an eviction nor a draw nor a revision depends
on a predicted probability.
-/

namespace DeferredReward

variable {α : Type}

/-- What training reads of a transition: all but the predicted probability. -/
def Transition.evidence (t : Transition α) : Array α × α := (t.features, t.reward)

theorem evidence_eq_iff {t t' : Transition α} :
    t.evidence = t'.evidence ↔ t.features = t'.features ∧ t.reward = t'.reward :=
  Prod.mk.injEq .. ▸ Iff.rfl

/-- What training reads of transitions in order. -/
def evidenceOf (ts : List (Transition α)) : List (Array α × α) := ts.map Transition.evidence

/-- The memories draw alike and hold the same evidence. -/
structure ReplayMemory.Resembles (m m' : ReplayMemory α) : Prop where
  capacity : m.capacity = m'.capacity
  generator : m.generator = m'.generator
  contents : evidenceOf m.toList = evidenceOf m'.toList

namespace ReplayMemory.Resembles

variable {m m' : ReplayMemory α}

theorem size (h : m.Resembles m') : m.size = m'.size := by
  have hlength := congrArg List.length h.contents
  rw [evidenceOf, evidenceOf, List.length_map, List.length_map] at hlength
  rw [← m.length_toList, ← m'.length_toList, hlength]

/-- Pushing the same evidence keeps the resemblance. -/
theorem push (h : m.Resembles m') {t t' : Transition α} (ht : t.evidence = t'.evidence) :
    (m.push t).Resembles (m'.push t') where
  capacity := by rw [capacity_push, capacity_push, h.capacity]
  generator := by
    have hkeeps : ∀ (m : ReplayMemory α) (t : Transition α),
        (m.push t).generator = m.generator := by
      intro m t
      unfold ReplayMemory.push
      split
      · rfl
      · split <;> rfl
    rw [hkeeps, hkeeps, h.generator]
  contents := by
    have hall : evidenceOf (m.toList ++ [t]) = evidenceOf (m'.toList ++ [t']) := by
      have hcontents := h.contents
      unfold evidenceOf at hcontents ⊢
      rw [List.map_append, List.map_append, hcontents, List.map_singleton, List.map_singleton, ht]
    rw [toList_push, toList_push, h.size, h.capacity]
    split
    · exact hall
    · unfold evidenceOf at hall ⊢
      rw [List.map_tail, List.map_tail, hall]

/-- Pushing the same evidence in the same order keeps the resemblance. -/
theorem pushAll (h : m.Resembles m') {ts ts' : List (Transition α)}
    (hts : evidenceOf ts = evidenceOf ts') : (m.pushAll ts).Resembles (m'.pushAll ts') := by
  induction ts generalizing m m' ts' with
  | nil =>
    rw [List.map_eq_nil_iff.1 hts.symm]
    exact h
  | cons t rest ih =>
    obtain ⟨t', rest', rfl, ht, hrest⟩ := List.map_eq_cons_iff.1 hts.symm
    exact ih (h.push ht.symm) hrest.symm

/-- Both memories draw a batch of the same evidence, or neither draws one. -/
theorem sample (h : m.Resembles m') (count : Nat) :
    (m.sample count).1.map evidenceOf = (m'.sample count).1.map evidenceOf ∧
      (m.sample count).2.Resembles (m'.sample count).2 := by
  by_cases hfew : m.size < count
  · have hfew' : m'.size < count := h.size ▸ hfew
    rw [ReplayMemory.sample, ReplayMemory.sample, ReplayMemory.sampleBy, ReplayMemory.sampleBy,
      if_pos hfew, if_pos hfew', h.size]
    exact ⟨rfl, h⟩
  · have henough : ¬m'.size < count := h.size ▸ hfew
    rw [ReplayMemory.sample, ReplayMemory.sample, ReplayMemory.sampleBy, ReplayMemory.sampleBy,
      if_neg hfew, if_neg henough]
    have hdrawn : m.generator.choose m.size count = m'.generator.choose m'.size count := by
      rw [h.generator, h.size]
    refine ⟨congrArg Except.ok ?_, h.capacity, congrArg Prod.snd hdrawn, h.contents⟩
    -- The same positions are drawn, and the same evidence is found there.
    unfold evidenceOf
    rw [List.map_filterMap, List.map_filterMap, hdrawn]
    refine List.filterMap_congr fun i _ => ?_
    have hfound := congrArg (·[i]?) h.contents
    simpa [evidenceOf] using hfound

end ReplayMemory.Resembles

/-- The areas require the same of features and hold the same evidence. -/
structure StagingArea.Resembles (s s' : StagingArea α) : Prop where
  featureLength : s.featureLength = s'.featureLength
  pending : evidenceOf s.transitions.toList = evidenceOf s'.transitions.toList

namespace StagingArea.Resembles

variable {s s' : StagingArea α}

theorem size (h : s.Resembles s') : s.size = s'.size := by
  have hlength := congrArg List.length h.pending
  rw [evidenceOf, evidenceOf, List.length_map, List.length_map, Array.length_toList,
    Array.length_toList] at hlength
  exact hlength

/-- Both areas accept the same evidence, or both refuse it for the same reason. -/
theorem stage (h : s.Resembles s') {t t' : Transition α} (ht : t.evidence = t'.evidence) :
    (∃ next next', s.stage t = .ok next ∧ s'.stage t' = .ok next' ∧ next.Resembles next') ∨
      ∃ cause, s.stage t = .error cause ∧ s'.stage t' = .error cause := by
  have hfeatures := (evidence_eq_iff.1 ht).1
  unfold StagingArea.stage
  dsimp only
  rw [h.featureLength, hfeatures]
  split
  · refine .inl ⟨_, _, rfl, rfl, rfl, ?_⟩
    have hpending := h.pending
    unfold evidenceOf at hpending ⊢
    rw [Array.toList_push, Array.toList_push, List.map_append, List.map_append, hpending,
      List.map_singleton, List.map_singleton, ht]
  · exact .inr ⟨_, rfl, rfl⟩

theorem clear (h : s.Resembles s') : s.clear.Resembles s'.clear := ⟨h.featureLength, rfl⟩

/-- A revision reads and writes evidence only. -/
theorem revise [Arithmetic α] (h : s.Resembles s') (outcome weight : α) :
    (s.revise outcome weight).Resembles (s'.revise outcome weight) where
  featureLength := h.featureLength
  pending := by
    have hrevised : ∀ s : StagingArea α,
        evidenceOf (s.revise outcome weight).transitions.toList =
          (evidenceOf s.transitions.toList).map
            fun e => (e.1, revised weight outcome e.2) := by
      intro s
      rw [StagingArea.revise, evidenceOf, evidenceOf, Array.toList_map, List.map_map, List.map_map]
      rfl
    rw [hrevised, hrevised, h.pending]

end StagingArea.Resembles

end DeferredReward
