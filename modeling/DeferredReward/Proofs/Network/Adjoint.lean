import DeferredReward.Proofs.Matrix.Pairing
import DeferredReward.Proofs.Network.Passes

/-!
# The backward pass is the adjoint of the forward pass

A direction gives every parameter a rate of change. Its tangent is the rate of
change of the output: it starts from zero at the input and goes through the
layers together with the batch. In exact arithmetic the pairing of the
gradients with the direction is the pairing of the output error with the
tangent, for layers of any number, kind and order, and for slopes that are any
functions at all.

Main statement: `pairing_gradients_eq_pairing_tangent`.
-/

namespace DeferredReward

variable {α : Type}

/-- The tangent of the output of a layer that receives `x` with tangent `t`,
when its parameters change as `direction` says. -/
def Layer.tangent [Zero α] [Add α] [Mul α] (direction : String → Except Fault (Matrix α)) :
    Layer α → (x t : Matrix α) → Except Fault (Matrix α)
  | .dense layer, x, t => do
    let carried ← t.mul layer.weights
    let turned ← x.mul (← direction "weight")
    Matrix.combine (· + ·) (← Matrix.combine (· + ·) carried turned) (← direction "bias")
  | .activation curve _, x, t => Matrix.combine (· * ·) (x.map curve.slope) t

/-- The tangent of the output of a dense layer whose weights change by `dw` and
whose bias changes by `db`, where all shapes fit. -/
def Dense.tangent [Zero α] [Add α] [Mul α] (layer : Dense α) (dw db x t : Matrix α) : Matrix α :=
  Matrix.zipRow (· + ·) (Matrix.zip (· + ·) (t.product layer.weights) (x.product dw)) db

/-- Where all shapes fit, a dense layer gives the tangent of its output. -/
theorem Layer.tangent_dense [Zero α] [Add α] [Mul α] {layer : Dense α}
    {inputs outputs rows : ℕ} {x t dw db : Matrix α}
    (direction : String → Except Fault (Matrix α))
    (hweights : layer.weights.shape = ⟨inputs, outputs⟩) (hx : x.shape = ⟨rows, inputs⟩)
    (ht : t.shape = ⟨rows, inputs⟩) (hdw : direction "weight" = .ok dw)
    (hdwshape : dw.shape = ⟨inputs, outputs⟩) (hdb : direction "bias" = .ok db)
    (hdbshape : db.shape = ⟨1, outputs⟩) :
    (Layer.dense layer).tangent direction x t = .ok (layer.tangent dw db x t) ∧
      (layer.tangent dw db x t).shape = ⟨rows, outputs⟩ := by
  obtain ⟨hxrows, hxcols⟩ := Matrix.shape_eq_iff.1 hx
  obtain ⟨htrows, htcols⟩ := Matrix.shape_eq_iff.1 ht
  obtain ⟨hwrows, hwcols⟩ := Matrix.shape_eq_iff.1 hweights
  obtain ⟨hdwrows, hdwcols⟩ := Matrix.shape_eq_iff.1 hdwshape
  have hcarried : (t.product layer.weights).shape = ⟨rows, outputs⟩ := by
    rw [Matrix.shape_product, htrows, hwcols]
  have hturned : (x.product dw).shape = (t.product layer.weights).shape := by
    rw [Matrix.shape_product, hxrows, hdwcols, hcarried]
  have hbias : db.shape = ⟨1, (t.product layer.weights).cols⟩ := by
    rw [hdbshape, Matrix.cols_of_shape hcarried]
  have hcarry := Matrix.mul_eq_ok (htcols.trans hwrows.symm)
  have hturn := Matrix.mul_eq_ok (hxcols.trans hdwrows.symm)
  have hadd := Matrix.combine_of_shape_eq (· + ·) hturned
  refine ⟨?_, hcarried⟩
  rw [Layer.tangent, hcarry, hdw, hdb]
  change (x.mul dw >>= fun turned =>
    Matrix.combine (· + ·) (t.product layer.weights) turned >>= fun sum =>
      Matrix.combine (· + ·) sum db) = _
  rw [bind_eq_of_ok hturn, bind_eq_of_ok hadd]
  exact Matrix.combine_row _ hbias

namespace Network

/-- The tangent `t` of a batch `x` handed through layers from a position on. -/
def tangentThrough [Zero α] [Add α] [Mul α] (direction : Parameters α) :
    (position : ℕ) → List (Layer α) → (x t : Matrix α) → Except Fault (Matrix α)
  | _, [], _, t => .ok t
  | position, layer :: rest, x, t => do
    let t ← layer.tangent (fun name => direction.fetch (parameterName position name)) x t
    tangentThrough direction (position + 1) rest (← layer.predict x) t

/-- The tangent of the output for a batch, which itself does not change. -/
def tangent [Zero α] [Add α] [Mul α] (network : Network α) (direction : Parameters α)
    (x : Matrix α) : Except Fault (Matrix α) :=
  tangentThrough direction 0 network.layers x (Matrix.zeros x.shape)

/-- The catalog holds a matrix of the same shape under each of the names. -/
def Covers (direction : Parameters α) (entries : List (String × Matrix α)) : Prop :=
  ∀ entry ∈ entries, ∃ m, direction.find? entry.1 = some m ∧ m.shape = entry.2.shape

variable [CommRing α]

/-- What a dense layer does to an error and what it does to a tangent are adjoint,
with the pairings of the two gradients for the difference. -/
theorem dense_adjoint {layer : Dense α} {inputs outputs rows : ℕ} {x t error dw db : Matrix α}
    (hweights : layer.weights.shape = ⟨inputs, outputs⟩) (hx : x.shape = ⟨rows, inputs⟩)
    (ht : t.shape = ⟨rows, inputs⟩) (herror : error.shape = ⟨rows, outputs⟩)
    (hdw : dw.shape = ⟨inputs, outputs⟩) :
    (error.product layer.weights.transpose).pairing t +
        ((x.transpose.product error).pairing dw + error.columnSums.pairing db) =
      error.pairing (layer.tangent dw db x t) := by
  have hcarried : (t.product layer.weights).shape = ⟨rows, outputs⟩ := by
    rw [Matrix.shape_product, Matrix.rows_of_shape ht, Matrix.cols_of_shape hweights]
  have hsum : (Matrix.zip (· + ·) (t.product layer.weights) (x.product dw)).shape =
      ⟨rows, outputs⟩ := hcarried
  calc (error.product layer.weights.transpose).pairing t +
        ((x.transpose.product error).pairing dw + error.columnSums.pairing db)
      = error.pairing (t.product layer.weights) +
          (error.pairing (x.product dw) + error.columnSums.pairing db) := by
        rw [Matrix.pairing_product_transpose herror hweights ht,
          Matrix.pairing_transpose_product hx herror hdw]
    _ = error.pairing (Matrix.zip (· + ·) (t.product layer.weights) (x.product dw)) +
          error.columnSums.pairing db := by
        rw [Matrix.pairing_zip_add (hcarried.trans herror.symm), add_assoc]
    _ = error.pairing (layer.tangent dw db x t) := (Matrix.pairing_zipRow_add herror hsum).symm

/-- What a layer does to an error and what it does to a tangent are adjoint,
with the pairing of its gradients for the difference. -/
theorem layer_adjoint {layer : Layer α} {position inputs outputs rows : ℕ}
    (h : layer.Maps inputs outputs) {x t : Matrix α} (hx : x.shape = ⟨rows, inputs⟩)
    (ht : t.shape = ⟨rows, inputs⟩) {direction : Parameters α}
    (hcovers : Covers direction (layer.parameters.map fun entry =>
      (parameterName position entry.1, entry.2))) :
    ∃ t', layer.tangent (fun name => direction.fetch (parameterName position name)) x t = .ok t' ∧
      t'.shape = ⟨rows, outputs⟩ ∧ ∀ error : Matrix α, error.shape = ⟨rows, outputs⟩ →
        (layer.inputError x error).pairing t + direction.pairingOf
          ((layer.renewed x error).gradients.map fun entry =>
            (parameterName position entry.1, entry.2)) = error.pairing t' := by
  cases layer with
  | dense layer =>
    obtain ⟨hweights, hbias⟩ := h
    obtain ⟨dw, hdw, hdwshape⟩ := hcovers (parameterName position "weight", layer.weights)
      (by simp [Layer.parameters])
    obtain ⟨db, hdb, hdbshape⟩ := hcovers (parameterName position "bias", layer.bias)
      (by simp [Layer.parameters])
    dsimp only at hdw hdb hdwshape hdbshape
    rw [hweights] at hdwshape
    rw [hbias] at hdbshape
    obtain ⟨htangent, hshape⟩ := Layer.tangent_dense
      (fun name => direction.fetch (parameterName position name)) hweights hx ht
      (Parameters.fetch_eq_ok hdw) hdwshape (Parameters.fetch_eq_ok hdb) hdbshape
    refine ⟨layer.tangent dw db x t, htangent, hshape, fun error herror => ?_⟩
    have hpairing : direction.pairingOf
        ((Layer.renewed (.dense layer) x error).gradients.map fun entry =>
          (parameterName position entry.1, entry.2)) =
        (x.transpose.product error).pairing dw + error.columnSums.pairing db := by
      simp only [Parameters.pairingOf, Layer.renewed, Layer.gradients, List.map_cons,
        List.map_nil, hdw, hdb, List.sum_cons, List.sum_nil, add_zero]
    rw [hpairing, Layer.inputError]
    exact dense_adjoint hweights hx ht herror hdwshape
  | activation curve input =>
    have hwidths : inputs = outputs := h
    subst hwidths
    have htshape : t.shape = (x.map curve.slope).shape := by rw [ht, Matrix.shape_map, hx]
    refine ⟨Matrix.zip (· * ·) (x.map curve.slope) t, Matrix.combine_of_shape_eq _ htshape, hx,
      fun error herror => ?_⟩
    have heshape : error.shape = (x.map curve.slope).shape := by
      rw [herror, Matrix.shape_map, hx]
    rw [Layer.inputError, Matrix.pairing_zip_mul heshape]
    exact add_zero _

/-- The adjoint law of one layer after the other: the tangent goes forward and
the error goes back, and what they pair to at the two ends differs by the
gradients in between. -/
theorem through_adjoint {layers kept : List (Layer α)} {position inputs outputs rows : ℕ}
    (h : Chained inputs layers outputs) {x y t error : Matrix α} (hx : x.shape = ⟨rows, inputs⟩)
    (hforward : forwardThrough layers x = .ok (y, kept)) (ht : t.shape = ⟨rows, inputs⟩)
    (herror : error.shape = ⟨rows, outputs⟩) {direction : Parameters α}
    (hcovers : Covers direction (namedFrom Layer.parameters position layers)) :
    ∃ inputError results t', backwardThrough kept error = .ok (.ok inputError, results) ∧
      tangentThrough direction position layers x t = .ok t' ∧
      inputError.shape = ⟨rows, inputs⟩ ∧ t'.shape = ⟨rows, outputs⟩ ∧
      inputError.pairing t + direction.pairingOf (namedFrom Layer.gradients position results) =
        error.pairing t' := by
  induction layers generalizing position inputs x t kept with
  | nil =>
    cases hforward
    have hwidths : inputs = outputs := h
    rw [← hwidths] at herror ⊢
    exact ⟨error, [], t, rfl, rfl, herror, ht, add_zero _⟩
  | cons layer rest ih =>
    obtain ⟨width, hmaps, hrest⟩ := h
    rw [namedFrom, Covers, List.forall_mem_append] at hcovers
    obtain ⟨hpredict, hshape⟩ := Layer.predict_of_maps hmaps (Matrix.cols_of_shape hx)
    rw [Matrix.rows_of_shape hx] at hshape
    -- The forward pass has left `x` in the first layer and has gone on from its output.
    have hlayerForward : layer.forward x = .ok (layer.output x, layer.remember x) := by
      rw [Layer.forward, hpredict]
      rfl
    rw [forwardThrough, bind_eq_of_ok hlayerForward] at hforward
    obtain ⟨⟨last, tail⟩, htail, hkept⟩ := exists_of_bind_eq_ok hforward
    cases hkept
    obtain ⟨t₁, hlayer, ht₁, hlocal⟩ := layer_adjoint hmaps hx ht hcovers.1
    obtain ⟨behind, results, t', hbehind, htangent, hbshape, htshape, hlaw⟩ :=
      ih hrest hshape htail ht₁ hcovers.2
    have hrows := Matrix.rows_of_shape hx
    obtain ⟨hback, hinput⟩ := Layer.backward_remember hmaps (Matrix.cols_of_shape hx)
      (hrows.symm ▸ hbshape)
    rw [hrows] at hinput
    refine ⟨layer.inputError x behind, layer.renewed x behind :: results, t', ?_, ?_, hinput,
      htshape, ?_⟩
    · rw [backwardThrough, bind_eq_of_ok hbehind]
      exact bind_eq_of_ok hback
    · rw [tangentThrough, bind_eq_of_ok hlayer, bind_eq_of_ok hpredict]
      exact htangent
    · rw [namedFrom, Parameters.pairingOf_append, ← add_assoc, hlocal behind hbshape, hlaw]

/-- The gradients of a backward pass pair with a direction to what the output
error pairs to with the tangent of the output in that direction. -/
theorem pairing_gradients_eq_pairing_tangent {network kept : Network α}
    (h : ∃ inputs outputs, Chained inputs network.layers outputs) {x y error : Matrix α}
    (hforward : network.forward x = .ok (.ok y, kept)) (herror : error.shape = y.shape)
    {direction : Parameters α}
    (hdirection : ∀ name, (direction.find? name).map Matrix.shape =
      (network.parameters.find? name).map Matrix.shape) :
    ∃ gradients after tangent, kept.backward error = .ok (.ok gradients, after) ∧
      gradients.layout = network.parameters.layout ∧
      network.tangent direction x = .ok tangent ∧ tangent.shape = y.shape ∧
      gradients.pairing direction = error.pairing tangent := by
  obtain ⟨haccepted, hthrough⟩ := forwardThrough_of_forward hforward
  obtain ⟨outputs, hchained⟩ := chained_of_accepted h haccepted
  obtain ⟨_, _, hsame, hyshape, hprimed⟩ := forwardThrough_of_chained hchained rfl
  rw [hthrough] at hsame
  cases hsame
  rw [hyshape] at herror ⊢
  have hcovers : Covers direction (namedFrom Layer.parameters 0 network.layers) := by
    intro entry hentry
    rw [← entries_parameters] at hentry
    have hshape := hdirection entry.1
    rw [(network.parameters.find?_eq_some_iff entry.1 entry.2).2 hentry, Option.map_some,
      Option.map_eq_some_iff] at hshape
    exact hshape
  obtain ⟨inputError, results, tangent, hback, htangent, hshape, htshape, hlaw⟩ :=
    through_adjoint hchained rfl hthrough (Matrix.shape_zeros x.shape) herror hcovers
  obtain ⟨gradients, after, hbackward, hlayout⟩ := backward_of_primed hprimed herror
  have hgradients : gradients = (Network.mk results).gradients := by
    rw [backward, bind_eq_of_ok hback] at hbackward
    cases hbackward
    rfl
  have hform : kept.form = network.form := form_of_stripped (stripped_of_forward hforward)
  refine ⟨gradients, after, tangent, hbackward, ?_, htangent, htshape, ?_⟩
  · rw [hlayout, layout_of_form hform]
  · -- At the input the tangent is zero, so that only the gradients are left.
    have hinput : inputError.shape = x.shape := hshape
    have hzero := Matrix.pairing_zeros inputError
    rw [hinput] at hzero
    rw [hzero, zero_add] at hlaw
    rw [hgradients, Parameters.pairing, entries_gradients]
    exact hlaw

/-- A dense layer from two columns to one, and the square, over the integers. -/
def squaredSum : Network ℤ where
  layers := [
    .dense (.ofParts ⟨2, 1, #[1, 2], rfl⟩ (.row #[3])),
    .ofCurve ⟨fun x => x * x, fun x => 2 * x⟩]

/-- A change of the weights and the bias of `squaredSum`. -/
def squaredSumDirection : Parameters ℤ :=
  .ofList [("layers.0.weight", ⟨2, 1, #[5, 7], rfl⟩), ("layers.0.bias", .row #[11])]

/-- At `(1, 1)` the sum is 6 and changes by 23, so that its square changes by 276. -/
theorem pairing_gradients_squaredSum :
    ∃ y kept gradients after tangent, squaredSum.forward (.row #[1, 1]) = .ok (.ok y, kept) ∧
      kept.backward (.row #[1]) = .ok (.ok gradients, after) ∧
      squaredSum.tangent squaredSumDirection (.row #[1, 1]) = .ok tangent ∧
      gradients.pairing squaredSumDirection = (Matrix.row #[1]).pairing tangent ∧
      tangent.data = #[276] := by
  have hchained : ∃ inputs outputs, Chained inputs squaredSum.layers outputs :=
    ⟨2, 1, 1, ⟨rfl, rfl⟩, 1, rfl, rfl⟩
  have hforward := (rfl : squaredSum.forward (.row #[1, 1]) = .ok (.ok _, _))
  have hshape : (Matrix.row #[(1 : ℤ)]).shape = ⟨1, 1⟩ := rfl
  have hlayout : squaredSumDirection.layout = squaredSum.parameters.layout := by decide
  obtain ⟨gradients, after, tangent, hbackward, _, htangent, _, hpairing⟩ :=
    pairing_gradients_eq_pairing_tangent hchained hforward hshape
      (Parameters.shape?_of_layout hlayout)
  have hvalue : (squaredSum.tangent squaredSumDirection (.row #[1, 1])).toOption.map
      (fun m => m.data) = some #[276] := by decide +kernel
  rw [htangent] at hvalue
  exact ⟨_, _, gradients, after, tangent, hforward, hbackward, htangent, hpairing,
    Option.some.inj hvalue⟩

end Network

end DeferredReward
