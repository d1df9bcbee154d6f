import DeferredReward.Proofs.Fault
import DeferredReward.Proofs.Matrix.Operations
import DeferredReward.Proofs.Network.Form

/-!
# Passes through a network

What a forward and a backward pass do. Whatever happens in them, a pass only
changes kept inputs and recorded gradients. In a network whose layers fit each
other, no pass meets a fault: a forward pass leaves every layer an input of the
right shape, and a backward pass that follows finds it there and records a
gradient of the shape of each parameter. What the passes compute are then plain
functions of the batch and of the error of its output.

Main statements: `stripped_of_forward`, `stripped_of_backward`, `predictThrough_eq`,
`forwardThrough_eq`, `backwardThrough_eq`, `backwardThrough_of_primed`.
-/

namespace DeferredReward

variable {α : Type}

namespace Layer

/-- The layer turns `inputs` columns into `outputs` columns, with a bias of one row. -/
def Maps (inputs outputs : ℕ) : Layer α → Prop
  | dense layer => layer.weights.shape = ⟨inputs, outputs⟩ ∧ layer.bias.shape = ⟨1, outputs⟩
  | activation _ _ => inputs = outputs

/-- Which columns a layer takes and gives is part of its form. -/
theorem maps_of_form {β : Type} {layer : Layer α} {other : Layer β} {inputs outputs : ℕ}
    (hform : layer.form = other.form) (h : layer.Maps inputs outputs) :
    other.Maps inputs outputs := by
  cases layer with
  | dense layer =>
    cases other with
    | dense other =>
      obtain ⟨hweights, hbias⟩ := Prod.mk.inj (Option.some.inj hform)
      rw [Maps, hweights, hbias] at h
      exact h
    | activation curve input => cases hform
  | activation curve input =>
    cases other with
    | dense other => cases hform
    | activation curve input => exact h

/-- The gradients have the names and shapes of the parameters. -/
def GradientsFit (layer : Layer α) : Prop :=
  layer.gradients.map (fun entry => (entry.1, entry.2.shape)) =
    layer.parameters.map fun entry => (entry.1, entry.2.shape)

section Passes

variable [Zero α] [Add α] [Mul α]

/-- The output of a layer that fits the batch. -/
def output : Layer α → Matrix α → Matrix α
  | dense layer, x => Matrix.zipRow (· + ·) (x.product layer.weights) layer.bias
  | activation curve _, x => x.map curve.value

/-- The error of the input `x` for an error of the output. -/
def inputError : Layer α → (x error : Matrix α) → Matrix α
  | dense layer, _, error => error.product layer.weights.transpose
  | activation curve _, x, error => Matrix.zip (· * ·) (x.map curve.slope) error

/-- The layer after a backward pass from the input `x`. -/
def renewed : Layer α → (x error : Matrix α) → Layer α
  | dense layer, x, error => .dense { layer with
      input := none
      weightsGradient := x.transpose.product error
      biasGradient := error.columnSums }
  | activation curve _, _, _ => .activation curve none

/-- A batch of the right width has an output. -/
theorem predict_of_maps {layer : Layer α} {inputs outputs : ℕ} (h : layer.Maps inputs outputs)
    {x : Matrix α} (hx : x.cols = inputs) :
    layer.predict x = .ok (layer.output x) ∧ (layer.output x).shape = ⟨x.rows, outputs⟩ := by
  cases layer with
  | dense layer =>
    have hweights := Matrix.shape_eq_iff.1 h.1
    have hproduct : (x.product layer.weights).shape = ⟨x.rows, outputs⟩ := by
      rw [Matrix.shape_product, hweights.2]
    have hbias : layer.bias.shape = ⟨1, (x.product layer.weights).cols⟩ := by
      rw [h.2, Matrix.cols_of_shape hproduct]
    constructor
    · rw [predict, Dense.predict, Matrix.mul_eq_ok (hx.trans hweights.1.symm)]
      exact Matrix.combine_row _ hbias
    · rw [output, Matrix.shape_zipRow, hproduct]
  | activation curve input =>
    refine ⟨rfl, ?_⟩
    rw [output, Matrix.shape_map, Matrix.shape_eq_iff]
    exact ⟨rfl, hx.trans h⟩

/-- A forward pass through a layer gives the output and changes nothing but the kept input. -/
theorem eq_of_forward {layer result : Layer α} {x y : Matrix α}
    (h : layer.forward x = .ok (y, result)) :
    layer.predict x = .ok y ∧ result = layer.remember x := by
  obtain ⟨output, hpredict, hresult⟩ := exists_of_bind_eq_ok h
  cases hresult
  exact ⟨hpredict, rfl⟩

/-- A backward pass through a layer changes nothing but the kept input and the
recorded gradients. -/
theorem stripped_of_backward {layer result : Layer α} {error : Matrix α}
    {answer : Except NetworkError (Matrix α)}
    (h : layer.backward error = .ok (answer, result)) : result.stripped = layer.stripped := by
  cases layer with
  | dense layer =>
    obtain ⟨⟨own, after⟩, hback, hresult⟩ := exists_of_bind_eq_ok h
    cases hresult
    unfold Dense.backward at hback
    split at hback
    · cases hback
      rfl
    · obtain ⟨inputError, _, hback⟩ := exists_of_bind_eq_ok hback
      obtain ⟨weightsGradient, _, hback⟩ := exists_of_bind_eq_ok hback
      cases hback
      rfl
  | activation curve input =>
    cases input with
    | none =>
      cases h
      rfl
    | some x =>
      obtain ⟨inputError, _, hresult⟩ := exists_of_bind_eq_ok h
      cases hresult
      rfl

/-- A layer that has kept its input takes back every error of the shape of its output. -/
theorem backward_of_maps {layer : Layer α} {inputs outputs rows : ℕ}
    (h : layer.Maps inputs outputs) {x error : Matrix α} (hinput : layer.input? = some x)
    (hx : x.shape = ⟨rows, inputs⟩) (herror : error.shape = ⟨rows, outputs⟩) :
    layer.backward error = .ok (.ok (layer.inputError x error), layer.renewed x error) ∧
      (layer.inputError x error).shape = ⟨rows, inputs⟩ := by
  obtain ⟨hxrows, hxcols⟩ := Matrix.shape_eq_iff.1 hx
  obtain ⟨herows, hecols⟩ := Matrix.shape_eq_iff.1 herror
  cases layer with
  | dense layer =>
    obtain ⟨hwrows, hwcols⟩ := Matrix.shape_eq_iff.1 h.1
    have hback : error.mul layer.weights.transpose = .ok (error.product layer.weights.transpose) :=
      Matrix.mul_eq_ok (hecols.trans hwcols.symm)
    have hgradient : x.transpose.mul error = .ok (x.transpose.product error) :=
      Matrix.mul_eq_ok (hxrows.trans herows.symm)
    constructor
    · change layer.input = some x at hinput
      rw [backward, Dense.backward, hinput]
      dsimp only
      rw [hback, hgradient]
      rfl
    · rw [inputError, Matrix.shape_product, herows]
      exact congrArg (Shape.mk rows) hwrows
  | activation curve input =>
    change input = some x at hinput
    subst hinput
    have hwidths : inputs = outputs := h
    have hshape : error.shape = (x.map curve.slope).shape := by
      rw [herror, Matrix.shape_map, hx, hwidths]
    constructor
    · rw [backward, Matrix.combine_of_shape_eq _ hshape]
      rfl
    · rw [inputError, Matrix.shape_zip, Matrix.shape_map, hx]

/-- A layer that has just kept `x` takes back every error of the shape of its output. -/
theorem backward_remember {layer : Layer α} {inputs outputs : ℕ} (h : layer.Maps inputs outputs)
    {x error : Matrix α} (hx : x.cols = inputs) (herror : error.shape = ⟨x.rows, outputs⟩) :
    (layer.remember x).backward error =
        .ok (.ok (layer.inputError x error), layer.renewed x error) ∧
      (layer.inputError x error).shape = ⟨x.rows, inputs⟩ := by
  have hform : layer.form = (layer.remember x).form := by cases layer <;> rfl
  have hinput : (layer.remember x).input? = some x := by cases layer <;> rfl
  have hshape : x.shape = ⟨x.rows, inputs⟩ := Matrix.shape_eq_iff.2 ⟨rfl, hx⟩
  have hback := backward_of_maps (maps_of_form hform h) hinput hshape herror
  have hsame : (layer.remember x).inputError x error = layer.inputError x error ∧
      (layer.remember x).renewed x error = layer.renewed x error := by
    cases layer <;> exact ⟨rfl, rfl⟩
  rwa [hsame.1, hsame.2] at hback

/-- A backward pass records a gradient of the shape of each parameter. -/
theorem gradientsFit_renewed {layer : Layer α} {inputs outputs rows : ℕ}
    (h : layer.Maps inputs outputs) {x error : Matrix α} (hx : x.shape = ⟨rows, inputs⟩)
    (herror : error.shape = ⟨rows, outputs⟩) : (layer.renewed x error).GradientsFit := by
  cases layer with
  | dense layer =>
    have hweights : (x.transpose.product error).shape = layer.weights.shape := by
      rw [h.1, Matrix.shape_product, Matrix.cols_of_shape herror]
      exact congrArg (Shape.mk · outputs) (Matrix.cols_of_shape hx)
    have hbias : error.columnSums.shape = layer.bias.shape := by
      rw [h.2, Matrix.shape_columnSums, Matrix.cols_of_shape herror]
    simp only [GradientsFit, renewed, gradients, parameters, List.map_cons, List.map_nil, hweights,
      hbias]
  | activation curve input => rfl

end Passes

end Layer

namespace Network

/-- The layers fit each other: together they turn `inputs` columns into `outputs` columns. -/
def Chained (inputs : ℕ) : List (Layer α) → (outputs : ℕ) → Prop
  | [], outputs => inputs = outputs
  | layer :: rest, outputs => ∃ width, layer.Maps inputs width ∧ Chained width rest outputs

/-- Whether layers fit each other is a matter of their forms. -/
theorem chained_of_form {β : Type} {layers : List (Layer α)} {others : List (Layer β)}
    {inputs outputs : ℕ} (hform : layers.map Layer.form = others.map Layer.form)
    (h : Chained inputs layers outputs) : Chained inputs others outputs := by
  induction layers generalizing others inputs with
  | nil =>
    cases others with
    | nil => exact h
    | cons other others => cases hform
  | cons layer rest ih =>
    cases others with
    | nil => cases hform
    | cons other others =>
      obtain ⟨hhead, htail⟩ := List.cons.inj hform
      obtain ⟨width, hmaps, hrest⟩ := h
      exact ⟨width, Layer.maps_of_form hhead hmaps, ih htail hrest⟩

/-- The first dense layer tells the number of columns that the layers start from. -/
theorem inputs_of_inputSize? {layers : List (Layer α)} {inputs outputs size : ℕ}
    (h : Chained inputs layers outputs) (hsize : layers.findSome? Layer.inputSize? = some size) :
    inputs = size := by
  induction layers generalizing inputs with
  | nil => cases hsize
  | cons layer rest ih =>
    obtain ⟨width, hmaps, hrest⟩ := h
    cases layer with
    | dense layer =>
      have hrows : layer.weights.rows = size := Option.some.inj hsize
      rw [← hrows, Matrix.rows_of_shape hmaps.1]
    | activation curve input =>
      have hwidths : inputs = width := hmaps
      rw [hwidths]
      exact ih hrest hsize

/-- Without a dense layer, the layers fit every number of columns. -/
theorem chained_of_inputSize?_eq_none {layers : List (Layer α)} (inputs : ℕ)
    (hsize : layers.findSome? Layer.inputSize? = none) : Chained inputs layers inputs := by
  induction layers with
  | nil => rfl
  | cons layer rest ih =>
    cases layer with
    | dense layer => cases hsize
    | activation curve input => exact ⟨inputs, rfl, ih hsize⟩

/-- A batch that layers fitting each other accept has the width they start from. -/
theorem chained_of_accepted {network : Network α}
    (h : ∃ inputs outputs, Chained inputs network.layers outputs) {x : Matrix α}
    (haccepted : network.inputError? x = none) :
    ∃ outputs, Chained x.cols network.layers outputs := by
  obtain ⟨inputs, outputs, hchained⟩ := h
  unfold inputError? at haccepted
  cases hsize : network.inputSize? with
  | none => exact ⟨x.cols, chained_of_inputSize?_eq_none x.cols hsize⟩
  | some size =>
    rw [hsize] at haccepted
    dsimp only at haccepted
    split at haccepted
    · rename_i hcols
      have hinputs := inputs_of_inputSize? hchained hsize
      rw [hinputs, hcols] at hchained
      exact ⟨outputs, hchained⟩
    · cases haccepted

/-- The layers fit each other, and each has kept an input of `rows` rows. -/
def Primed (rows : ℕ) : (inputs : ℕ) → List (Layer α) → (outputs : ℕ) → Prop
  | inputs, [], outputs => inputs = outputs
  | inputs, layer :: rest, outputs => ∃ width, layer.Maps inputs width ∧
      (∃ x, layer.input? = some x ∧ x.shape = ⟨rows, inputs⟩) ∧ Primed rows width rest outputs

theorem layout_gradientsFrom {layers : List (Layer α)}
    (h : ∀ layer ∈ layers, layer.GradientsFit) (position : ℕ) :
    (namedFrom Layer.gradients position layers).map (fun entry => (entry.1, entry.2.shape)) =
      (namedFrom Layer.parameters position layers).map
        fun entry => (entry.1, entry.2.shape) := by
  induction layers generalizing position with
  | nil => rfl
  | cons layer rest ih =>
    rw [List.forall_mem_cons] at h
    have hhead := congrArg (List.map fun entry : String × Shape =>
      (parameterName position entry.1, entry.2)) h.1
    rw [List.map_map, List.map_map] at hhead
    rw [namedFrom, namedFrom, List.map_append, List.map_append, ih h.2 (position + 1),
      List.map_map, List.map_map]
    exact congrArg (· ++ _) hhead

/-- Gradients that fit layer by layer have the layout of the parameters. -/
theorem layout_gradients {network : Network α}
    (h : ∀ layer ∈ network.layers, layer.GradientsFit) :
    network.gradients.layout = network.parameters.layout := by
  rw [Parameters.layout, Parameters.layout, entries_gradients, entries_parameters]
  exact layout_gradientsFrom h 0

section Passes

variable [Zero α] [Add α] [Mul α]

/-- A forward pass with an output has accepted the batch. -/
theorem forwardThrough_of_forward {network kept : Network α} {x y : Matrix α}
    (h : network.forward x = .ok (.ok y, kept)) :
    network.inputError? x = none ∧ forwardThrough network.layers x = .ok (y, kept.layers) := by
  unfold forward at h
  split at h
  · cases h
  · rename_i haccepted
    obtain ⟨⟨output, layers⟩, hforward, h⟩ := exists_of_bind_eq_ok h
    cases h
    exact ⟨haccepted, hforward⟩

/-- After a pass every layer holds what the layers before it make of the batch, and is
otherwise as it was. -/
theorem remembered_of_forwardThrough {layers results : List (Layer α)} {x y : Matrix α}
    (h : forwardThrough layers x = .ok (y, results)) :
    results.length = layers.length ∧ ∀ i layer, layers[i]? = some layer →
      ∃ input, predictThrough (layers.take i) x = .ok input ∧
        results[i]? = some (layer.remember input) := by
  induction layers generalizing x results with
  | nil =>
    cases h
    exact ⟨rfl, fun _ _ hlayer => nomatch hlayer⟩
  | cons first rest ih =>
    obtain ⟨⟨output, head⟩, hhead, h⟩ := exists_of_bind_eq_ok h
    obtain ⟨⟨last, tail⟩, htail, h⟩ := exists_of_bind_eq_ok h
    cases h
    obtain ⟨houtput, rfl⟩ := Layer.eq_of_forward hhead
    obtain ⟨hlength, hkept⟩ := ih htail
    refine ⟨congrArg (· + 1) hlength, fun i layer hlayer => ?_⟩
    cases i with
    | zero =>
      cases hlayer
      exact ⟨x, rfl, rfl⟩
    | succ i =>
      obtain ⟨input, hinput, hresult⟩ := hkept i layer hlayer
      exact ⟨input, (bind_eq_of_ok houtput).trans hinput, hresult⟩

/-- Whatever does not depend on the kept input is the same in each layer after a pass. -/
theorem map_of_forwardThrough {β : Type} {view : Layer α → β}
    (hview : ∀ layer x, view (layer.remember x) = view layer) {layers results : List (Layer α)}
    {x y : Matrix α} (h : forwardThrough layers x = .ok (y, results)) :
    results.map view = layers.map view := by
  obtain ⟨hlength, hkept⟩ := remembered_of_forwardThrough h
  refine List.ext_getElem? fun i => ?_
  rw [List.getElem?_map, List.getElem?_map]
  cases hlayer : layers[i]? with
  | none => rw [List.getElem?_eq_none (hlength ▸ List.getElem?_eq_none_iff.1 hlayer)]
  | some layer =>
    obtain ⟨input, -, hresult⟩ := hkept i layer hlayer
    rw [hresult, Option.map_some, Option.map_some, hview]

theorem stripped_of_forwardThrough {layers results : List (Layer α)} {x y : Matrix α}
    (h : forwardThrough layers x = .ok (y, results)) :
    results.map Layer.stripped = layers.map Layer.stripped :=
  map_of_forwardThrough Layer.stripped_remember h

/-- A forward pass only changes what passes leave in a network. -/
theorem stripped_of_forward {network result : Network α} {x : Matrix α}
    {answer : Except NetworkError (Matrix α)}
    (h : network.forward x = .ok (answer, result)) : result.stripped = network.stripped := by
  unfold forward at h
  split at h
  · cases h
    rfl
  · obtain ⟨⟨output, layers⟩, hforward, h⟩ := exists_of_bind_eq_ok h
    cases h
    exact congrArg Network.mk (stripped_of_forwardThrough hforward)

theorem stripped_of_backwardThrough {layers results : List (Layer α)} {error : Matrix α}
    {answer : Except NetworkError (Matrix α)}
    (h : backwardThrough layers error = .ok (answer, results)) :
    results.map Layer.stripped = layers.map Layer.stripped := by
  induction layers generalizing answer results with
  | nil =>
    cases h
    rfl
  | cons layer rest ih =>
    obtain ⟨⟨_ | behind, tail⟩, htail, h⟩ := exists_of_bind_eq_ok h
    · cases h
      rw [List.map_cons, List.map_cons, ih htail]
    · obtain ⟨⟨own, head⟩, hhead, h⟩ := exists_of_bind_eq_ok h
      cases h
      rw [List.map_cons, List.map_cons, ih htail, Layer.stripped_of_backward hhead]

/-- A backward pass only changes what passes leave in a network. -/
theorem stripped_of_backward {network result : Network α} {error : Matrix α}
    {answer : Except NetworkError (Parameters α)}
    (h : network.backward error = .ok (answer, result)) : result.stripped = network.stripped := by
  obtain ⟨⟨_ | behind, layers⟩, hbackward, h⟩ := exists_of_bind_eq_ok h <;>
  · cases h
    exact congrArg Network.mk (stripped_of_backwardThrough hbackward)

/-! ## Passes as functions -/

/-- The output of layers that fit each other. -/
def outputThrough : List (Layer α) → Matrix α → Matrix α
  | [], x => x
  | layer :: rest, x => outputThrough rest (layer.output x)

/-- The layers after a forward pass from `x`. -/
def keptThrough : List (Layer α) → Matrix α → List (Layer α)
  | [], _ => []
  | layer :: rest, x => layer.remember x :: keptThrough rest (layer.output x)

/-- The error of the input `x` of layers that fit each other. -/
def errorThrough : List (Layer α) → (x error : Matrix α) → Matrix α
  | [], _, error => error
  | layer :: rest, x, error => layer.inputError x (errorThrough rest (layer.output x) error)

/-- The layers after a forward pass from `x` and a backward pass. -/
def renewedThrough : List (Layer α) → (x error : Matrix α) → List (Layer α)
  | [], _, _ => []
  | layer :: rest, x, error =>
    layer.renewed x (errorThrough rest (layer.output x) error) ::
      renewedThrough rest (layer.output x) error

section Chained

variable {layers : List (Layer α)} {inputs outputs : ℕ}

/-- A batch of the right width has the output of the layers. -/
theorem predictThrough_eq (h : Chained inputs layers outputs) {x : Matrix α}
    (hx : x.cols = inputs) :
    predictThrough layers x = .ok (outputThrough layers x) ∧
      (outputThrough layers x).shape = ⟨x.rows, outputs⟩ := by
  induction layers generalizing inputs x with
  | nil => exact ⟨rfl, Matrix.shape_eq_iff.2 ⟨rfl, hx.trans h⟩⟩
  | cons layer rest ih =>
    obtain ⟨width, hmaps, hrest⟩ := h
    obtain ⟨hpredict, hshape⟩ := Layer.predict_of_maps hmaps hx
    obtain ⟨hbehind, hbehindShape⟩ := ih hrest (Matrix.cols_of_shape hshape)
    rw [Matrix.rows_of_shape hshape] at hbehindShape
    exact ⟨(bind_eq_of_ok hpredict).trans hbehind, hbehindShape⟩

/-- A forward pass leaves each of the layers its input. -/
theorem forwardThrough_eq (h : Chained inputs layers outputs) {x : Matrix α}
    (hx : x.cols = inputs) :
    forwardThrough layers x = .ok (outputThrough layers x, keptThrough layers x) ∧
      Primed x.rows inputs (keptThrough layers x) outputs := by
  induction layers generalizing inputs x with
  | nil => exact ⟨rfl, h⟩
  | cons layer rest ih =>
    obtain ⟨width, hmaps, hrest⟩ := h
    obtain ⟨hpredict, hshape⟩ := Layer.predict_of_maps hmaps hx
    obtain ⟨hbehind, hprimed⟩ := ih hrest (Matrix.cols_of_shape hshape)
    rw [Matrix.rows_of_shape hshape] at hprimed
    have hlayer : layer.forward x = .ok (layer.output x, layer.remember x) :=
      bind_eq_of_ok hpredict
    refine ⟨(bind_eq_of_ok hlayer).trans (bind_eq_of_ok hbehind), width, ?_, ⟨x, ?_, ?_⟩, hprimed⟩
    · exact Layer.maps_of_form (by cases layer <;> rfl) hmaps
    · cases layer <;> rfl
    · exact Matrix.shape_eq_iff.2 ⟨rfl, hx⟩

/-- A batch of the right width passes forward through layers that fit each other. -/
theorem forwardThrough_of_chained (h : Chained inputs layers outputs) {x : Matrix α}
    (hx : x.cols = inputs) :
    ∃ y kept, forwardThrough layers x = .ok (y, kept) ∧ y.shape = ⟨x.rows, outputs⟩ ∧
      Primed x.rows inputs kept outputs := by
  obtain ⟨hforward, hprimed⟩ := forwardThrough_eq h hx
  exact ⟨_, _, hforward, (predictThrough_eq h hx).2, hprimed⟩

/-- After a forward pass the error of the output passes back through the layers. -/
theorem backwardThrough_eq (h : Chained inputs layers outputs) {x error : Matrix α}
    (hx : x.cols = inputs) (herror : error.shape = ⟨x.rows, outputs⟩) :
    backwardThrough (keptThrough layers x) error =
        .ok (.ok (errorThrough layers x error), renewedThrough layers x error) ∧
      (errorThrough layers x error).shape = ⟨x.rows, inputs⟩ := by
  induction layers generalizing inputs x with
  | nil =>
    have hwidths : inputs = outputs := h
    exact ⟨rfl, hwidths ▸ herror⟩
  | cons layer rest ih =>
    obtain ⟨width, hmaps, hrest⟩ := h
    obtain ⟨_, hshape⟩ := Layer.predict_of_maps hmaps hx
    obtain ⟨hrows, hcols⟩ := Matrix.shape_eq_iff.1 hshape
    obtain ⟨hbehind, hbehindShape⟩ := ih hrest hcols (hrows.symm ▸ herror)
    rw [hrows] at hbehindShape
    obtain ⟨hown, hownShape⟩ := Layer.backward_remember hmaps hx hbehindShape
    refine ⟨?_, hownShape⟩
    rw [keptThrough, backwardThrough, bind_eq_of_ok hbehind]
    exact bind_eq_of_ok hown

/-- What passes leave in layers is told by the gradients. -/
theorem renewedThrough_inj {position : ℕ} {x x' error error' : Matrix α}
    (h : namedFrom Layer.gradients position (renewedThrough layers x error) =
      namedFrom Layer.gradients position (renewedThrough layers x' error')) :
    renewedThrough layers x error = renewedThrough layers x' error' := by
  induction layers generalizing position x x' with
  | nil => rfl
  | cons layer rest ih =>
    rw [renewedThrough, renewedThrough, namedFrom, namedFrom] at h
    obtain ⟨hown, hbehind⟩ := List.append_inj h (by cases layer <;> rfl)
    rw [renewedThrough, renewedThrough, ih hbehind]
    refine congrArg (· :: _) ?_
    cases layer with
    | dense layer =>
      obtain ⟨hfirst, hothers⟩ := List.cons.inj hown
      have hweights : x.transpose.product (errorThrough rest ((Layer.dense layer).output x) error) =
          x'.transpose.product (errorThrough rest ((Layer.dense layer).output x') error') :=
        (Prod.mk.inj hfirst).2
      have hbias : (errorThrough rest ((Layer.dense layer).output x) error).columnSums =
          (errorThrough rest ((Layer.dense layer).output x') error').columnSums :=
        (Prod.mk.inj (List.cons.inj hothers).1).2
      rw [Layer.renewed, Layer.renewed, hweights, hbias]
    | activation curve input => rfl

end Chained

/-! ## Backward passes from any kept inputs -/

/-- After a forward pass, every error of the shape of the output passes back. -/
theorem backwardThrough_of_primed {layers : List (Layer α)} {rows inputs outputs : ℕ}
    (h : Primed rows inputs layers outputs) {error : Matrix α}
    (herror : error.shape = ⟨rows, outputs⟩) :
    ∃ inputError results, backwardThrough layers error = .ok (.ok inputError, results) ∧
      inputError.shape = ⟨rows, inputs⟩ ∧ ∀ layer ∈ results, layer.GradientsFit := by
  induction layers generalizing inputs with
  | nil =>
    have hwidths : inputs = outputs := h
    rw [← hwidths] at herror
    exact ⟨error, [], rfl, herror, fun _ hmem => nomatch hmem⟩
  | cons layer rest ih =>
    obtain ⟨width, hmaps, ⟨x, hinput, hx⟩, hrest⟩ := h
    obtain ⟨behind, results, hbehind, hshape, hfit⟩ := ih hrest
    obtain ⟨hback, hinputError⟩ := Layer.backward_of_maps hmaps hinput hx hshape
    refine ⟨layer.inputError x behind, layer.renewed x behind :: results, ?_, hinputError, ?_⟩
    · simp only [backwardThrough, hbehind, bind, Except.bind, pure, Except.pure, hback]
    · rw [List.forall_mem_cons]
      exact ⟨Layer.gradientsFit_renewed hmaps hx hshape, hfit⟩

/-- After a forward pass, the gradients for every error of the shape of the output
have the layout of the parameters. -/
theorem backward_of_primed {network : Network α} {rows inputs outputs : ℕ}
    (h : Primed rows inputs network.layers outputs) {error : Matrix α}
    (herror : error.shape = ⟨rows, outputs⟩) :
    ∃ gradients after, network.backward error = .ok (.ok gradients, after) ∧
      gradients.layout = network.parameters.layout := by
  obtain ⟨inputError, results, hback, _, hfit⟩ := backwardThrough_of_primed h herror
  have hbackward : network.backward error =
      .ok (.ok (Network.mk results).gradients, ⟨results⟩) := by
    rw [backward, bind_eq_of_ok hback]
    rfl
  refine ⟨_, _, hbackward, ?_⟩
  rw [layout_gradients hfit, layout_of_form (form_of_stripped (stripped_of_backward hbackward))]

end Passes

end Network

end DeferredReward
