import DeferredReward.Network.Drawn
import DeferredReward.Proofs.Loss
import DeferredReward.Proofs.Network.Passes

/-!
# The predictor and its passes

A predictor takes one number of features and gives one output for each
observation. The drawn network is one, for every list of hidden sizes, and so is
every network of its form. A predictor never meets a fault: it refuses exactly
the batches of another width. On the others it passes forward, to a loss, and
back, to a gradient of the shape of each parameter.

Main statements: `isPredictor_drawPredictor`, `IsPredictor.predict_eq`,
`IsPredictor.predict_eq_error`, `IsPredictor.forward_eq`, `passes_eq`.
-/

namespace DeferredReward.Network

variable {α : Type}

/-- The layers lead from `width` features to one output, and the first dense one
tells the width. -/
structure IsPredictor (width : ℕ) (network : Network α) : Prop where
  inputSize : network.inputSize? = some width
  chained : Chained width network.layers 1

namespace IsPredictor

variable {width : ℕ} {network : Network α}

/-- To be a predictor is a matter of the form. -/
theorem of_form {other : Network α} (h : network.IsPredictor width)
    (hform : other.form = network.form) : other.IsPredictor width where
  inputSize := by rw [inputSize?_of_form hform, h.inputSize]
  chained := chained_of_form hform.symm h.chained

/-- Exactly the batches of the right width are accepted. -/
theorem inputError?_eq (h : network.IsPredictor width) (x : Matrix α) :
    network.inputError? x =
      if width = x.cols then none else some (.inputWidth width x.cols) := by
  rw [inputError?, h.inputSize]

variable [Zero α] [Add α] [Mul α]

/-- A batch of the right width has one output for each row. -/
theorem predict_eq (h : network.IsPredictor width) {x : Matrix α} (hx : x.cols = width) :
    network.predict x = .ok (.ok (outputThrough network.layers x)) ∧
      (outputThrough network.layers x).shape = ⟨x.rows, 1⟩ := by
  obtain ⟨hthrough, hshape⟩ := predictThrough_eq h.chained hx
  refine ⟨?_, hshape⟩
  rw [predict, h.inputError?_eq, if_pos hx.symm]
  exact bind_eq_of_ok hthrough

/-- A batch of another width is refused. -/
theorem predict_eq_error (h : network.IsPredictor width) {x : Matrix α} (hx : x.cols ≠ width) :
    network.predict x = .ok (.error (.inputWidth width x.cols)) := by
  rw [predict, h.inputError?_eq, if_neg hx.symm]

/-- A batch of the right width passes forward and leaves every layer its input. -/
theorem forward_eq (h : network.IsPredictor width) {x : Matrix α} (hx : x.cols = width) :
    network.forward x =
        .ok (.ok (outputThrough network.layers x), ⟨keptThrough network.layers x⟩) ∧
      Primed x.rows width (keptThrough network.layers x) 1 := by
  obtain ⟨hthrough, hprimed⟩ := forwardThrough_eq h.chained hx
  refine ⟨?_, hprimed⟩
  rw [forward, h.inputError?_eq, if_pos hx.symm]
  exact bind_eq_of_ok hthrough

end IsPredictor

/-! ## The passes on a batch -/

section Batch

variable [Arithmetic α]

/-- The loss of a network on a batch with its gradients for all parameters, and
the network after the passes. -/
def passes (network : Network α) (x expected : Matrix α) :
    Except Fault (Except NetworkError (Option α × Parameters α) × Network α) := do
  let (predicted, network) ← network.forward x
  match predicted with
  | .error cause => return (.error cause, network)
  | .ok predicted =>
    let loss ← smoothLoss expected predicted
    let slope ← smoothLossSlope expected predicted
    let (gradients, network) ← network.backward slope
    match gradients with
    | .error cause => return (.error cause, network)
    | .ok gradients => return (.ok (loss, gradients), network)

/-- The loss of layers that fit each other. -/
def lossFor (layers : List (Layer α)) (x expected : Matrix α) : α :=
  meanLoss expected (outputThrough layers x)

/-- The layers after the passes, where they fit each other. -/
def trainedOn (layers : List (Layer α)) (x expected : Matrix α) : Network α :=
  ⟨renewedThrough layers x (meanLossSlope expected (outputThrough layers x))⟩

variable {width rows : ℕ} {network : Network α} {x expected : Matrix α}

/-- The passes of a predictor on a batch of its width. -/
theorem passes_eq (h : network.IsPredictor width) (hx : x.shape = ⟨rows, width⟩)
    (hexpected : expected.shape = ⟨rows, 1⟩) (hpos : rows ≠ 0) :
    network.passes x expected =
        .ok (.ok (some (lossFor network.layers x expected),
          (trainedOn network.layers x expected).gradients), trainedOn network.layers x expected) ∧
      (trainedOn network.layers x expected).gradients.layout = network.parameters.layout := by
  obtain ⟨rfl, hcols⟩ := Matrix.shape_eq_iff.1 hx
  obtain ⟨_, hshape⟩ := h.predict_eq hcols
  obtain ⟨hforward, hprimed⟩ := h.forward_eq hcols
  have hsame : expected.shape = (outputThrough network.layers x).shape := by
    rw [hexpected, hshape]
  have hsize : (outputThrough network.layers x).size ≠ 0 := by
    obtain ⟨hr, hc⟩ := Matrix.shape_eq_iff.1 hshape
    rw [Matrix.size, hr, hc, Nat.mul_one]
    exact hpos
  have hloss := smoothLoss_eq hsame
  rw [if_neg hsize] at hloss
  have hslope := smoothLossSlope_eq hsame
  have hslopeShape : (meanLossSlope expected (outputThrough network.layers x)).shape =
      ⟨x.rows, 1⟩ := hshape
  obtain ⟨hthrough, _⟩ := backwardThrough_eq h.chained hcols hslopeShape
  have hbackward : Network.backward ⟨keptThrough network.layers x⟩
      (meanLossSlope expected (outputThrough network.layers x)) =
        .ok (.ok (trainedOn network.layers x expected).gradients,
          trainedOn network.layers x expected) := by
    rw [backward, bind_eq_of_ok hthrough]
    rfl
  constructor
  · refine (bind_eq_of_ok hforward).trans ((bind_eq_of_ok hloss).trans ?_)
    exact (bind_eq_of_ok hslope).trans (bind_eq_of_ok hbackward)
  · obtain ⟨_, _, hrecorded, hlayout⟩ := backward_of_primed hprimed hslopeShape
    rw [hbackward] at hrecorded
    cases hrecorded
    rw [hlayout, layout_of_form (form_of_stripped (stripped_of_forward hforward))]

/-- Passes with the same gradients leave the same network. -/
theorem trainedOn_eq_of_gradients {layers : List (Layer α)} {x' expected' : Matrix α}
    (h : (trainedOn layers x expected).gradients = (trainedOn layers x' expected').gradients) :
    trainedOn layers x expected = trainedOn layers x' expected' := by
  have hentries := congrArg Catalog.entries h
  rw [entries_gradients, entries_gradients] at hentries
  exact congrArg Network.mk (renewedThrough_inj hentries)

end Batch

/-! ## The drawn network -/

variable [Analysis α]

/-- Drawn layers fit each other. -/
theorem chained_drawLayers (hidden head : Pointwise α) (inputs : ℕ) (hiddenSizes : List ℕ)
    (g : Generator) : Chained inputs (drawLayers hidden head inputs hiddenSizes g).1 1 := by
  induction hiddenSizes generalizing inputs g with
  | nil => exact ⟨1, ⟨rfl, rfl⟩, 1, rfl, rfl⟩
  | cons size rest ih => exact ⟨size, ⟨rfl, rfl⟩, size, rfl, ih size _⟩

/-- The drawn network is a predictor, whatever its hidden sizes are. -/
theorem isPredictor_drawPredictor (inputs : ℕ) (hiddenSizes : List ℕ) (activation : Activation)
    (g : Generator) :
    (drawPredictor (α := α) inputs hiddenSizes activation g).1.IsPredictor inputs where
  inputSize := by cases hiddenSizes <;> rfl
  chained := chained_drawLayers _ _ inputs hiddenSizes g

end DeferredReward.Network
