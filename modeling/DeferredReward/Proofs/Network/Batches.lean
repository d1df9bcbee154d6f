import DeferredReward.Proofs.Matrix.Rows
import DeferredReward.Proofs.Network.Passes

/-!
# Batches and single observations

Whatever the layers compute with, a network treats each row of a batch as if it were
alone. It is enough that every bias has one row; nothing else is asked of the shapes, as
long as they can be combined at all. A forward pass gives the same output as a
prediction, or the same refusal or fault.

Main statements: `rowAt_predict`, `forward_map_fst`.
-/

namespace DeferredReward

variable {α : Type}

namespace Layer

/-- The bias of a dense layer has one row, which serves every row of a batch. -/
def HasRowBias : Layer α → Prop
  | dense layer => layer.bias.rows = 1
  | activation _ _ => True

variable [Zero α] [Add α] [Mul α]

/-- A layer gives each row of a batch that it takes the output of this row alone. -/
theorem rowAt_predict {layer : Layer α} (hbias : layer.HasRowBias) {x y : Matrix α}
    (h : layer.predict x = .ok y) :
    y.rows = x.rows ∧ ∀ r < x.rows, layer.predict (x.rowAt r) = .ok (y.rowAt r) := by
  cases layer with
  | dense layer =>
    obtain ⟨product, hproduct, hcombine⟩ := exists_of_bind_eq_ok h
    obtain ⟨hrows, hrowAt⟩ := Matrix.rowAt_combine hbias hcombine
    by_cases hcols : x.cols = layer.weights.rows
    · rw [Matrix.mul_eq_ok hcols] at hproduct
      cases hproduct
      refine ⟨hrows, fun r hr => ?_⟩
      have hrow : (x.rowAt r).mul layer.weights = .ok ((x.product layer.weights).rowAt r) := by
        rw [Matrix.rowAt_product layer.weights hr]
        exact Matrix.mul_eq_ok hcols
      exact (bind_eq_of_ok hrow).trans (hrowAt r hr)
    · rw [Matrix.mul, if_neg hcols] at hproduct
      cases hproduct
  | activation curve input =>
    cases h
    exact ⟨rfl, fun r hr => congrArg Except.ok (Matrix.rowAt_map curve.value hr).symm⟩

theorem forward_map_fst (layer : Layer α) (x : Matrix α) :
    (layer.forward x).map Prod.fst = layer.predict x := by
  rw [forward]
  cases layer.predict x <;> rfl

end Layer

namespace Network

/-- Every bias has one row. -/
def HasRowBiases (network : Network α) : Prop := ∀ layer ∈ network.layers, layer.HasRowBias

/-- Layers that fit each other have such biases. -/
theorem hasRowBiases_of_chained {layers : List (Layer α)} {inputs outputs : ℕ}
    (h : Chained inputs layers outputs) : HasRowBiases ⟨layers⟩ := by
  induction layers generalizing inputs with
  | nil => exact List.forall_mem_nil _
  | cons layer rest ih =>
    obtain ⟨width, hmaps, hrest⟩ := h
    refine List.forall_mem_cons.2 ⟨?_, ih hrest⟩
    cases layer with
    | dense layer => exact Matrix.rows_of_shape hmaps.2
    | activation curve input => exact trivial

variable [Zero α] [Add α] [Mul α]

theorem rowAt_predictThrough {layers : List (Layer α)}
    (hbias : ∀ layer ∈ layers, layer.HasRowBias) {x y : Matrix α}
    (h : predictThrough layers x = .ok y) :
    y.rows = x.rows ∧ ∀ r < x.rows, predictThrough layers (x.rowAt r) = .ok (y.rowAt r) := by
  induction layers generalizing x with
  | nil =>
    cases h
    exact ⟨rfl, fun _ _ => rfl⟩
  | cons layer rest ih =>
    rw [List.forall_mem_cons] at hbias
    obtain ⟨between, hlayer, hrest⟩ := exists_of_bind_eq_ok h
    obtain ⟨hrows, hrowAt⟩ := Layer.rowAt_predict hbias.1 hlayer
    obtain ⟨hrestRows, hrestRowAt⟩ := ih hbias.2 hrest
    refine ⟨hrestRows.trans hrows, fun r hr => ?_⟩
    exact (bind_eq_of_ok (hrowAt r hr)).trans (hrestRowAt r (hrows.symm ▸ hr))

/-- A network gives each row of a batch that it takes the output of this row alone. -/
theorem rowAt_predict {network : Network α} (hbias : network.HasRowBiases) {x y : Matrix α}
    (h : network.predict x = .ok (.ok y)) :
    y.rows = x.rows ∧ ∀ r < x.rows, network.predict (x.rowAt r) = .ok (.ok (y.rowAt r)) := by
  unfold predict at h
  split at h
  · cases h
  · rename_i haccepted
    obtain ⟨output, hthrough, h⟩ := exists_of_bind_eq_ok h
    cases h
    obtain ⟨hrows, hrowAt⟩ := rowAt_predictThrough hbias hthrough
    refine ⟨hrows, fun r hr => ?_⟩
    have hrow : network.inputError? (x.rowAt r) = none := haccepted
    rw [predict, hrow]
    exact bind_eq_of_ok (hrowAt r hr)

theorem forwardThrough_map_fst (layers : List (Layer α)) (x : Matrix α) :
    (forwardThrough layers x).map Prod.fst = predictThrough layers x := by
  induction layers generalizing x with
  | nil => rfl
  | cons layer rest ih =>
    rw [forwardThrough, predictThrough, ← layer.forward_map_fst]
    cases layer.forward x with
    | error fault => rfl
    | ok result =>
      obtain ⟨y, kept⟩ := result
      rw [Except.map, bind_eq_of_ok rfl, bind_eq_of_ok rfl, ← ih]
      dsimp only
      cases forwardThrough rest y <;> rfl

/-- A forward pass answers what a prediction does. -/
theorem forward_map_fst (network : Network α) (x : Matrix α) :
    (network.forward x).map Prod.fst = network.predict x := by
  rw [forward, predict]
  cases network.inputError? x with
  | some cause => rfl
  | none =>
    rw [← forwardThrough_map_fst]
    cases forwardThrough network.layers x <;> rfl

theorem predict_of_forward {network kept : Network α} {x : Matrix α}
    {answer : Except NetworkError (Matrix α)} (h : network.forward x = .ok (answer, kept)) :
    network.predict x = .ok answer := by
  rw [← forward_map_fst, h]
  rfl

end Network

end DeferredReward
