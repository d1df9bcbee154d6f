import DeferredReward.Proofs.Matrix.Rows
import DeferredReward.Proofs.Network.Drawn
import DeferredReward.Proofs.Parameters.Elements

/-!
# The rows of a batch pass on their own

The output of layers for a row of a batch is their output for this row alone. In
exact arithmetic the error of a row passes back on its own too, and the gradients
of a batch are the sums of those that its rows have: no row has any influence on
what another one adds.

Main statements: `rowAt_outputThrough`, `isScaled_errorThrough`,
`elementOf_renewedThrough`.
-/

namespace DeferredReward

variable {α : Type}

namespace Network

/-! ## Forward, row by row -/

section Passes

variable [Zero α] [Add α] [Mul α]

/-- A layer gives a row of a batch the output of this row alone. -/
theorem rowAt_output (layer : Layer α) {x : Matrix α} {r : ℕ} (hr : r < x.rows) :
    (layer.output x).rowAt r = layer.output (x.rowAt r) := by
  cases layer with
  | dense layer =>
    have hproduct : r < (x.product layer.weights).rows := hr
    rw [Layer.output, Matrix.rowAt_zipRow _ _ hproduct, Matrix.rowAt_product _ hr]
    rfl
  | activation curve input => exact Matrix.rowAt_map curve.value hr

theorem rows_output (layer : Layer α) (x : Matrix α) : (layer.output x).rows = x.rows := by
  cases layer <;> rfl

/-- Layers give a row of a batch the output of this row alone. -/
theorem rowAt_outputThrough (layers : List (Layer α)) {x : Matrix α} {r : ℕ} (hr : r < x.rows) :
    (outputThrough layers x).rowAt r = outputThrough layers (x.rowAt r) := by
  induction layers generalizing x with
  | nil => rfl
  | cons layer rest ih =>
    rw [outputThrough, ih ((rows_output layer x).symm ▸ hr), rowAt_output layer hr]
    rfl

end Passes

/-! ## Backward, row by row -/

section Exact

variable [CommRing α] {factor : α} {inputs outputs : ℕ} {x error : Matrix α}
  {xs errors : ℕ → Matrix α}

/-- The outputs of the rows are the rows of the output. -/
theorem rowAt_output_of_rows (layer : Layer α) (hxs : ∀ r < x.rows, x.rowAt r = xs r) :
    ∀ r < (layer.output x).rows, (layer.output x).rowAt r = layer.output (xs r) := by
  intro r hr
  rw [rows_output] at hr
  rw [rowAt_output layer hr, hxs r hr]

/-- A layer hands the error of a row back on its own. -/
theorem isScaled_inputError {layer : Layer α} (hmaps : layer.Maps inputs outputs)
    (hx : x.cols = inputs) (herror : error.shape = ⟨x.rows, outputs⟩)
    (hxs : ∀ r < x.rows, x.rowAt r = xs r) (h : Matrix.IsScaled factor error errors) :
    Matrix.IsScaled factor (layer.inputError x error)
      fun r => layer.inputError (xs r) (errors r) := by
  cases layer with
  | dense layer => exact h.product layer.weights.transpose
  | activation curve input =>
    have hwidths : inputs = outputs := hmaps
    have hshape : error.shape = (x.map curve.slope).shape := by
      rw [herror, Matrix.shape_map, ← hwidths, ← hx]
      rfl
    refine (h.zip_mul hshape).congr fun r hr => ?_
    have hrow : r < x.rows := hr
    rw [Matrix.rowAt_map curve.slope hrow, hxs r hrow]
    rfl

/-- Layers hand the error of a row back on its own. -/
theorem isScaled_errorThrough {layers : List (Layer α)} (hchained : Chained inputs layers outputs)
    (hx : x.cols = inputs) (herror : error.shape = ⟨x.rows, outputs⟩)
    (hxs : ∀ r < x.rows, x.rowAt r = xs r) (h : Matrix.IsScaled factor error errors) :
    Matrix.IsScaled factor (errorThrough layers x error)
      fun r => errorThrough layers (xs r) (errors r) := by
  induction layers generalizing inputs x xs with
  | nil => exact h
  | cons layer rest ih =>
    obtain ⟨width, hmaps, hrest⟩ := hchained
    obtain ⟨_, hshape⟩ := Layer.predict_of_maps hmaps hx
    obtain ⟨hrows, hcols⟩ := Matrix.shape_eq_iff.1 hshape
    rw [← hrows] at herror
    have hbehind := ih hrest hcols herror (rowAt_output_of_rows layer hxs)
    obtain ⟨_, hbehindShape⟩ := backwardThrough_eq hrest hcols herror
    rw [hrows] at hbehindShape
    exact isScaled_inputError hmaps hx hbehindShape hxs hbehind

/-! ## Gradients, row by row -/

/-- The element of the first matrix under a name; zero where there is none. -/
def elementOf (entries : List (String × Matrix α)) (name : String) (row col : ℕ) : α :=
  match (entries.find? fun entry => entry.1 == name).map Prod.snd with
  | some m => m.entry row col
  | none => 0

theorem elementOf_cons (key : String) (m : Matrix α) (entries : List (String × Matrix α))
    (name : String) (row col : ℕ) :
    elementOf ((key, m) :: entries) name row col =
      if key = name then m.entry row col else elementOf entries name row col := by
  unfold elementOf
  by_cases hname : key = name
  · rw [if_pos hname, List.find?_cons_of_pos (by simp [hname])]
    rfl
  · rw [if_neg hname, List.find?_cons_of_neg (by simp [hname])]

/-- The elements of the gradients are those that the layers have recorded. -/
theorem element_gradients (network : Network α) (name : String) (row col : ℕ) :
    network.gradients.element name row col =
      elementOf (namedFrom Layer.gradients 0 network.layers) name row col := by
  rw [Parameters.element, Catalog.find?, entries_gradients]
  rfl

/-- What a layer records for a batch, before what other layers record, is the sum of what it
records for the rows. -/
theorem elementOf_renewed (layer : Layer α) (hrows : error.rows = x.rows)
    (hxs : ∀ r < x.rows, x.rowAt r = xs r) (h : Matrix.IsScaled factor error errors)
    (position : ℕ) {others : List (String × Matrix α)}
    {othersOf : ℕ → List (String × Matrix α)} {name : String} {row col : ℕ}
    (hothers : elementOf others name row col =
      factor * ∑ r ∈ Finset.range x.rows, elementOf (othersOf r) name row col) :
    elementOf ((layer.renewed x error).gradients.map (fun entry =>
        (parameterName position entry.1, entry.2)) ++ others) name row col =
      factor * ∑ r ∈ Finset.range x.rows,
        elementOf ((layer.renewed (xs r) (errors r)).gradients.map (fun entry =>
          (parameterName position entry.1, entry.2)) ++ othersOf r) name row col := by
  cases layer with
  | dense layer =>
    have hparts : ∀ (x error : Matrix α) (others : List (String × Matrix α)),
        ((Layer.dense layer).renewed x error).gradients.map (fun entry =>
          (parameterName position entry.1, entry.2)) ++ others =
        (parameterName position "weight", x.transpose.product error) ::
          (parameterName position "bias", error.columnSums) :: others := fun _ _ _ => rfl
    simp only [hparts, elementOf_cons]
    split
    · rw [h.entry_transpose_product hrows row col]
      refine congrArg (factor * ·) (Finset.sum_congr rfl fun r hr => ?_)
      rw [hxs r (Finset.mem_range.1 hr)]
    · split
      · rw [← hrows]
        exact h.entry_columnSums row col
      · exact hothers
  | activation curve input => exact hothers

/-- What layers record for a batch is the sum of what they record for the rows. -/
theorem elementOf_renewedThrough {layers : List (Layer α)}
    (hchained : Chained inputs layers outputs) (hx : x.cols = inputs)
    (herror : error.shape = ⟨x.rows, outputs⟩) (hxs : ∀ r < x.rows, x.rowAt r = xs r)
    (h : Matrix.IsScaled factor error errors) (position : ℕ) (name : String) (row col : ℕ) :
    elementOf (namedFrom Layer.gradients position (renewedThrough layers x error)) name row col =
      factor * ∑ r ∈ Finset.range x.rows, elementOf (namedFrom Layer.gradients position
        (renewedThrough layers (xs r) (errors r))) name row col := by
  induction layers generalizing inputs x xs position with
  | nil =>
    have hnone : ∀ r ∈ Finset.range x.rows, elementOf (namedFrom Layer.gradients position
        (renewedThrough [] (xs r) (errors r))) name row col = 0 := fun _ _ => rfl
    rw [Finset.sum_eq_zero hnone, mul_zero]
    rfl
  | cons layer rest ih =>
    obtain ⟨width, hmaps, hrest⟩ := hchained
    obtain ⟨_, hshape⟩ := Layer.predict_of_maps hmaps hx
    obtain ⟨hrows, hcols⟩ := Matrix.shape_eq_iff.1 hshape
    rw [← hrows] at herror
    have hys := rowAt_output_of_rows layer hxs
    have hbehind := isScaled_errorThrough hrest hcols herror hys h
    obtain ⟨_, hbehindShape⟩ := backwardThrough_eq hrest hcols herror
    have hothers := ih hrest hcols herror hys (position + 1)
    rw [hrows] at hothers hbehindShape
    exact elementOf_renewed layer (Matrix.rows_of_shape hbehindShape) hxs hbehind position hothers

end Exact

end Network

end DeferredReward
