import DeferredReward.Proofs.Optimizer
import DeferredReward.Proofs.Parameters.Elements

/-!
# A step of the optimizer, element by element

An accepted step gives every element of a parameter the moment that its own
gradient makes of its former one, and then moves it by that moment. What is kept
under names that the step does not mention stays as it is.

Main statements: `element_moments_after`, `element_moved`.
-/

namespace DeferredReward.Optimizer

variable {α : Type} [Analysis α]

/-- The moments that a step starts from are those kept, or zeros. -/
theorem entry_momentsOf (o : Optimizer α) (name : String) (shape : Shape) (row col : ℕ) :
    (o.momentsOf name shape).entry row col = Parameters.element o.moments name row col := by
  unfold momentsOf Parameters.element
  cases o.moments.find? name with
  | none => exact Matrix.entry_zeros shape row col
  | some m => rfl

/-- After a step the moments of a parameter are the fresh ones. -/
theorem find?_moments_after (o : Optimizer α) (gradients : Parameters α)
    {parameters : Parameters α} {name : String} {p : Matrix α}
    (hp : parameters.find? name = some p) :
    (o.after parameters gradients).moments.find? name =
      (o.fresh parameters gradients).find? name := by
  rw [after, Catalog.find?_merge, find?_fresh o gradients hp, Option.some_or]

/-- A step keeps the moments of names that it does not mention. -/
theorem find?_moments_after_of_none (o : Optimizer α) (gradients : Parameters α)
    {parameters : Parameters α} {name : String} (hp : parameters.find? name = none) :
    (o.after parameters gradients).moments.find? name = o.moments.find? name := by
  rw [after, Catalog.find?_merge, fresh, Catalog.find?_mapEntries, hp, Option.map_none,
    Option.none_or]

section Accepted

variable {o : Optimizer α} {parameters gradients : Parameters α} {name : String} {row col : ℕ}

/-- The moments that an accepted step starts from have the shape of the parameter. -/
theorem shape_momentsOf (hshapes : o.reshaped? parameters = none) {p : Matrix α}
    (hp : parameters.find? name = some p) : (o.momentsOf name p.shape).shape = p.shape := by
  rw [reshaped?_eq_none_iff] at hshapes
  have hmem := (parameters.find?_eq_some_iff name p).1 hp
  exact hshapes (name, p.shape) (List.mem_map.2 ⟨(name, p), hmem, rfl⟩)

/-- An accepted step gives an element the moment that its gradient makes of the former one. -/
theorem element_moments_after (hsuited : parameters.mismatch? gradients = none)
    (hshapes : o.reshaped? parameters = none) (h : parameters.Has name row col) :
    Parameters.element (o.after parameters gradients).moments name row col =
      o.accumulate (Parameters.element o.moments name row col)
        (gradients.element name row col) := by
  obtain ⟨p, hp, hrow, hcol⟩ := h
  obtain ⟨g, hg, _⟩ :=
    Parameters.find?_of_mismatch? hsuited ((parameters.find?_eq_some_iff name p).1 hp)
  have hfresh := (find?_moments_after o gradients hp).trans (find?_fresh o gradients hp)
  obtain ⟨hrows, hcols⟩ := Matrix.shape_eq_iff.1 (shape_momentsOf hshapes hp)
  rw [Parameters.element_of_find? hfresh, hg, Option.getD_some, Parameters.element_of_find? hg,
    Matrix.entry_zip _ _ _ (hrows ▸ hrow) (hcols ▸ hcol), entry_momentsOf]

/-- Everywhere else a step leaves the moments as they are. -/
theorem element_moments_after_of_not_has (hshapes : o.reshaped? parameters = none)
    (h : ¬parameters.Has name row col) :
    Parameters.element (o.after parameters gradients).moments name row col =
      Parameters.element o.moments name row col := by
  cases hp : parameters.find? name with
  | none =>
    rw [Parameters.element, Parameters.element, find?_moments_after_of_none o gradients hp]
  | some p =>
    -- A name that the step mentions has moments of its shape, before and after.
    have hfresh := (find?_moments_after o gradients hp).trans (find?_fresh o gradients hp)
    obtain ⟨hrows, hcols⟩ := Matrix.shape_eq_iff.1 (shape_momentsOf hshapes hp)
    have houtside : ¬(row < (o.momentsOf name p.shape).rows ∧
        col < (o.momentsOf name p.shape).cols) := by
      rw [hrows, hcols]
      exact fun hinside => h ⟨p, hp, hinside⟩
    have hbefore := entry_momentsOf o name p.shape row col
    rw [Matrix.entry_of_not_lt _ houtside] at hbefore
    rw [Parameters.element_of_find? hfresh, ← hbefore]
    exact Matrix.entry_of_not_lt _ houtside

/-- A step moves each parameter by its fresh moments. -/
theorem find?_moved (o : Optimizer α) (gradients : Parameters α) {p : Matrix α}
    (hp : parameters.find? name = some p) :
    (o.moved parameters gradients).find? name =
      some (Matrix.zip (o.descend (o.schedule (o.steps + 1))) p
        (Matrix.zip o.accumulate (o.momentsOf name p.shape)
          ((gradients.find? name).getD (Matrix.zeros p.shape)))) := by
  rw [moved, descended, Catalog.find?_mapEntries, hp, Option.map_some, find?_fresh o gradients hp]

/-- An accepted step moves an element by the moment that it leaves for it. -/
theorem element_moved (o : Optimizer α) (gradients : Parameters α)
    (h : parameters.Has name row col) :
    (o.moved parameters gradients).element name row col =
      o.descend (o.schedule (o.steps + 1)) (parameters.element name row col)
        (Parameters.element (o.after parameters gradients).moments name row col) := by
  obtain ⟨p, hp, hrow, hcol⟩ := h
  have hmoments := (find?_moments_after o gradients hp).trans (find?_fresh o gradients hp)
  rw [Parameters.element_of_find? (find?_moved o gradients hp), Parameters.element_of_find? hp,
    Parameters.element_of_find? hmoments, Matrix.entry_zip _ _ _ hrow hcol]

end Accepted

end DeferredReward.Optimizer
