import DeferredReward.Optimizer
import DeferredReward.Proofs.Catalog
import DeferredReward.Proofs.Fault

/-!
# Steps of the optimizer

A step either refuses the gradients and changes nothing, or has a gradient for
every parameter and cannot fail after that. An accepted step keeps the layout of
the parameters, counts itself and leaves every parameter with moments of its
own shape, so that the next step on that layout finds them there.

Main statements: `step_cases`, `step_eq_ok`, `reshaped?_after`.
-/

namespace DeferredReward.Optimizer

variable {α : Type} [Analysis α]

/-- The moments of all given parameters after gradients that are there for each of them. -/
def fresh (o : Optimizer α) (parameters gradients : Parameters α) :
    Catalog (Matrix (Moment α)) :=
  parameters.mapEntries fun name p =>
    Matrix.zip o.accumulate (o.momentsOf name p.shape)
      ((gradients.find? name).getD (Matrix.zeros p.shape))

/-- The optimizer after an accepted step. -/
def after (o : Optimizer α) (parameters gradients : Parameters α) : Optimizer α :=
  { o with steps := o.steps + 1, moments := o.moments.merge (o.fresh parameters gradients) }

/-- The parameters after an accepted step. -/
def moved (o : Optimizer α) (parameters gradients : Parameters α) : Parameters α :=
  o.descended (o.schedule (o.steps + 1)) (o.fresh parameters gradients) parameters

/-- With a gradient for every parameter no name is looked up in vain. -/
theorem accumulated_eq_ok (o : Optimizer α) {parameters gradients : Parameters α}
    (h : parameters.mismatch? gradients = none) :
    o.accumulated parameters gradients = .ok (o.fresh parameters gradients) := by
  refine Catalog.traverse_eq_ok fun entry hentry => ?_
  obtain ⟨g, hg, _⟩ := Parameters.find?_of_mismatch? h hentry
  rw [Parameters.fetch_eq_ok hg, hg]
  rfl

/-- An accepted step counts itself. -/
theorem toInt_steps_after {o : Optimizer α} (h : o.steps ≠ Int32.maxValue)
    (parameters gradients : Parameters α) :
    (o.after parameters gradients).steps.toInt = o.steps.toInt + 1 := by
  have hlow := o.steps.le_toInt
  have hhigh := o.steps.toInt_lt
  have hne : o.steps.toInt ≠ 2147483647 := fun heq => h (Int32.toInt_inj.1 heq)
  have hsum : (o.steps.toInt + 1).bmod (2 ^ 32) = o.steps.toInt + 1 :=
    Int.bmod_eq_of_le (by omega) (by omega)
  rw [after, Int32.toInt_add, Int32.toInt_one, hsum]

/-- A step refuses the gradients, or it goes through. -/
theorem step_cases {o o' : Optimizer α} {parameters gradients : Parameters α}
    {answer : Except NetworkError (Parameters α)}
    (h : o.step parameters gradients = .ok (answer, o')) :
    (∃ name, parameters.mismatch? gradients = some name ∧
      answer = .error (.unsuitableParameter name) ∧ o' = o) ∨
    (parameters.mismatch? gradients = none ∧ o.steps ≠ Int32.maxValue ∧
      o.reshaped? parameters = none ∧ answer = .ok (o.moved parameters gradients) ∧
      o' = o.after parameters gradients) := by
  unfold step at h
  split at h
  · rename_i name hmismatch
    cases h
    exact .inl ⟨name, hmismatch, rfl, rfl⟩
  · rename_i hmismatch
    split at h
    · cases h
    · rename_i hsteps
      split at h
      · cases h
      · rename_i hreshaped
        rw [accumulated_eq_ok o hmismatch] at h
        cases h
        exact .inr ⟨hmismatch, hsteps, hreshaped, rfl, rfl⟩

/-- Gradients that suit the parameters are accepted, as long as steps can be
counted and the moments have kept their shapes. -/
theorem step_eq_ok {o : Optimizer α} {parameters gradients : Parameters α}
    (hsuited : parameters.mismatch? gradients = none) (hsteps : o.steps ≠ Int32.maxValue)
    (hreshaped : o.reshaped? parameters = none) :
    o.step parameters gradients =
      .ok (.ok (o.moved parameters gradients), o.after parameters gradients) := by
  rw [step, hsuited]
  dsimp only
  rw [if_neg hsteps, hreshaped]
  dsimp only
  rw [accumulated_eq_ok o hsuited]
  rfl

/-- Gradients of the layout of the parameters suit them. -/
theorem step_of_layout {o : Optimizer α} {parameters gradients : Parameters α}
    (h : gradients.layout = parameters.layout) (hsteps : o.steps ≠ Int32.maxValue)
    (hreshaped : o.reshaped? parameters = none) :
    o.step parameters gradients =
      .ok (.ok (o.moved parameters gradients), o.after parameters gradients) :=
  step_eq_ok (Parameters.mismatch?_of_layout h.symm) hsteps hreshaped

/-- A step moves the elements of the parameters and keeps their shapes. -/
theorem layout_moved (o : Optimizer α) (parameters gradients : Parameters α) :
    (o.moved parameters gradients).layout = parameters.layout := by
  refine Parameters.layout_mapEntries fun entry _ => ?_
  split
  · exact Matrix.shape_zip _ _ _
  · rfl

/-- Which parameters have moments of another shape is a matter of the layout. -/
theorem reshaped?_eq_none_iff (o : Optimizer α) (parameters : Parameters α) :
    o.reshaped? parameters = none ↔
      ∀ entry ∈ parameters.layout, (o.momentsOf entry.1 entry.2).shape = entry.2 := by
  rw [reshaped?, Option.map_eq_none_iff, List.find?_eq_none, Parameters.layout,
    List.forall_mem_map]
  simp

/-- The fresh moments of a parameter. -/
theorem find?_fresh (o : Optimizer α) (gradients : Parameters α) {parameters : Parameters α}
    {name : String} {p : Matrix α} (hp : parameters.find? name = some p) :
    (o.fresh parameters gradients).find? name =
      some (Matrix.zip o.accumulate (o.momentsOf name p.shape)
        ((gradients.find? name).getD (Matrix.zeros p.shape))) := by
  rw [fresh, Catalog.find?_mapEntries, hp, Option.map_some]

/-- After an accepted step every parameter has moments of its shape. -/
theorem reshaped?_after {o : Optimizer α} {parameters others gradients : Parameters α}
    (h : o.reshaped? parameters = none) (hlayout : others.layout = parameters.layout) :
    (o.after parameters gradients).reshaped? others = none := by
  rw [reshaped?_eq_none_iff] at h ⊢
  rw [hlayout]
  intro entry hentry
  obtain ⟨named, hnamed, rfl⟩ := List.mem_map.1 hentry
  have hfresh := find?_fresh o gradients ((parameters.find?_eq_some_iff named.1 named.2).2 hnamed)
  have hmoments : (o.after parameters gradients).momentsOf named.1 named.2.shape =
      Matrix.zip o.accumulate (o.momentsOf named.1 named.2.shape)
        ((gradients.find? named.1).getD (Matrix.zeros named.2.shape)) := by
    rw [momentsOf, after, Catalog.find?_merge, hfresh, Option.some_or, Option.getD_some]
  dsimp only
  rw [hmoments, Matrix.shape_zip]
  exact h _ hentry

/-- The fresh moments have the layout of the parameters. -/
theorem layout_fresh {o : Optimizer α} {parameters : Parameters α}
    (h : o.reshaped? parameters = none) (gradients : Parameters α) :
    Parameters.layout (o.fresh parameters gradients) = parameters.layout := by
  rw [reshaped?_eq_none_iff] at h
  refine Parameters.layout_mapEntries fun entry hentry => ?_
  rw [Matrix.shape_zip]
  exact h _ (List.mem_map.2 ⟨entry, hentry, rfl⟩)

/-- Once every step has been about the same parameters, there are moments for
exactly these, in their order and of their shapes. -/
theorem layout_moments_after {o : Optimizer α} {parameters : Parameters α}
    (hshapes : o.reshaped? parameters = none)
    (h : o.moments = .empty ∨ Parameters.layout o.moments = parameters.layout)
    (gradients : Parameters α) :
    Parameters.layout (o.after parameters gradients).moments = parameters.layout := by
  have hfresh := layout_fresh hshapes gradients
  have hmerge : o.moments.merge (o.fresh parameters gradients) = o.fresh parameters gradients := by
    rcases h with hempty | hlayout
    · rw [hempty, Catalog.merge_empty]
    · exact Catalog.merge_of_names (Parameters.names_of_layout (hlayout.trans hfresh.symm))
  rw [after, hmerge]
  exact hfresh

/-- Before the first step there are no moments, and none of another shape. -/
theorem reshaped?_of_empty {o : Optimizer α} (h : o.moments = .empty)
    (parameters : Parameters α) : o.reshaped? parameters = none := by
  rw [reshaped?_eq_none_iff]
  intro entry _
  rw [momentsOf, h]
  exact Matrix.shape_zeros _

end DeferredReward.Optimizer
