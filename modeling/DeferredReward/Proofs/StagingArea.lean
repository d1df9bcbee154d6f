import DeferredReward.StagingArea

/-!
# What the staging area accepts

The first feature vector fixes the required length, and from then on exactly the
vectors of that length are accepted.
-/

namespace DeferredReward.StagingArea

variable {α : Type} {s : StagingArea α}

/-- While no length is required, every vector is accepted and fixes it. -/
theorem stage_of_none (h : s.featureLength = none) (t : Transition α) :
    s.stage t = .ok ⟨s.transitions.push t, some t.features.size⟩ := by
  rw [stage, h]
  exact if_pos rfl

/-- Once a length is required, the vectors of that length are accepted. -/
theorem stage_of_some {length : Nat} (h : s.featureLength = some length) (t : Transition α) :
    s.stage t = if length = t.features.size then .ok ⟨s.transitions.push t, some length⟩
      else .error ⟨length, t.features.size⟩ := by
  rw [stage, h]
  rfl

/-- A staged transition is the last one, and its length is required from then on. -/
theorem stage_eq_ok_iff {t : Transition α} {s' : StagingArea α} :
    s.stage t = .ok s' ↔
      (s.featureLength = none ∨ s.featureLength = some t.features.size) ∧
        s' = ⟨s.transitions.push t, some t.features.size⟩ := by
  cases hlength : s.featureLength with
  | none => simp [stage_of_none hlength, eq_comm]
  | some length =>
    rw [stage_of_some hlength]
    by_cases hsame : length = t.features.size
    · simp [hsame, eq_comm]
    · simp [hsame]

end DeferredReward.StagingArea
