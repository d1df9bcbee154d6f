import DeferredReward.Proofs.Network.Names

/-!
# The form of a network

The form of a network is what no operation changes: for each layer whether it
is dense, and then the shapes of its weights and of its bias. It determines the
layout of the parameters and the number of features the network takes. Putting
parameters into a network keeps the form, and parameters of the network's own
layout are never refused.

A network without what passes have left in it keeps its parameters and its
predictions.

Main statements: `install_eq`, `install_of_layout`, `form_of_install`.
-/

namespace DeferredReward

variable {α : Type}

namespace Layer

/-- The shapes of the weights and the bias of a dense layer. -/
def form : Layer α → Option (Shape × Shape)
  | dense layer => some (layer.weights.shape, layer.bias.shape)
  | activation _ _ => none

/-- The layer without kept inputs and recorded gradients. -/
def stripped [Zero α] : Layer α → Layer α
  | dense layer => .dense (.ofParts layer.weights layer.bias)
  | activation curve _ => .activation curve none

@[simp] theorem form_stripped [Zero α] (layer : Layer α) : layer.stripped.form = layer.form := by
  cases layer <;> rfl

@[simp] theorem parameters_stripped [Zero α] (layer : Layer α) :
    layer.stripped.parameters = layer.parameters := by
  cases layer <;> rfl

@[simp] theorem stripped_remember [Zero α] (layer : Layer α) (x : Matrix α) :
    (layer.remember x).stripped = layer.stripped := by
  cases layer <;> rfl

/-- What passes have left in a layer has no influence on its output. -/
@[simp] theorem predict_stripped [Zero α] [Add α] [Mul α] (layer : Layer α) (x : Matrix α) :
    layer.stripped.predict x = layer.predict x := by
  cases layer <;> rfl

/-- The number of features is part of the form. -/
theorem inputSize?_eq_form (layer : Layer α) :
    layer.inputSize? = layer.form.map fun shapes => shapes.1.rows := by
  cases layer <;> rfl

/-- Parameters of the same shapes do not change the form. -/
theorem form_withParameters {find? : String → Option (Matrix α)} {layer : Layer α}
    (h : ∀ entry ∈ layer.parameters, ∃ m, find? entry.1 = some m ∧ m.shape = entry.2.shape) :
    (layer.withParameters find?).form = layer.form := by
  cases layer with
  | dense layer =>
    obtain ⟨weights, hweights, hwshape⟩ := h ("weight", layer.weights) (by simp [parameters])
    obtain ⟨bias, hbias, hbshape⟩ := h ("bias", layer.bias) (by simp [parameters])
    dsimp only at hweights hbias hwshape hbshape
    rw [withParameters, hweights, hbias, form, form, Option.getD_some, Option.getD_some, hwshape,
      hbshape]
  | activation curve input => rfl

/-- The parameters of the layer are overwritten name by name. -/
theorem parameters_withParameters (find? : String → Option (Matrix α)) (layer : Layer α) :
    (layer.withParameters find?).parameters =
      layer.parameters.map fun entry => (entry.1, (find? entry.1).getD entry.2) := by
  cases layer <;> rfl

/-- A layer whose parameters can all be fetched is overwritten without a fault. -/
theorem overwrite_eq_ok {given : Parameters α} {rename : String → String} {layer : Layer α}
    (h : ∀ entry ∈ layer.parameters, ∃ m, given.find? (rename entry.1) = some m) :
    layer.overwrite (fun name => given.fetch (rename name)) =
      .ok (layer.withParameters fun name => given.find? (rename name)) := by
  cases layer with
  | dense layer =>
    obtain ⟨weights, hweights⟩ := h ("weight", layer.weights) (by simp [parameters])
    obtain ⟨bias, hbias⟩ := h ("bias", layer.bias) (by simp [parameters])
    dsimp only at hweights hbias
    rw [overwrite, Parameters.fetch_eq_ok hweights, Parameters.fetch_eq_ok hbias, withParameters,
      hweights, hbias]
    rfl
  | activation curve input => rfl

end Layer

namespace Network

/-- The forms of the layers in order. -/
def form (network : Network α) : List (Option (Shape × Shape)) := network.layers.map Layer.form

/-- The network without kept inputs and recorded gradients. -/
def stripped [Zero α] (network : Network α) : Network α := ⟨network.layers.map Layer.stripped⟩

/-- The layout of the parameters of layers of given forms, from a position on. -/
def layoutFrom : (position : Nat) → List (Option (Shape × Shape)) → List (String × Shape)
  | _, [] => []
  | position, none :: rest => layoutFrom (position + 1) rest
  | position, some (weights, bias) :: rest =>
    (parameterName position "weight", weights) :: (parameterName position "bias", bias) ::
      layoutFrom (position + 1) rest

theorem layout_namedFrom (position : Nat) (layers : List (Layer α)) :
    (namedFrom Layer.parameters position layers).map (fun entry => (entry.1, entry.2.shape)) =
      layoutFrom position (layers.map Layer.form) := by
  induction layers generalizing position with
  | nil => rfl
  | cons layer rest ih =>
    rw [namedFrom, List.map_append, ih (position + 1)]
    cases layer <;> rfl

/-- The form determines the layout of the parameters. -/
theorem layout_parameters (network : Network α) :
    network.parameters.layout = layoutFrom 0 network.form := by
  rw [Parameters.layout, entries_parameters, layout_namedFrom]
  rfl

/-- Networks of one form have parameters of one layout. -/
theorem layout_of_form {β : Type} {network : Network α} {other : Network β}
    (h : network.form = other.form) :
    network.parameters.layout = other.parameters.layout := by
  rw [layout_parameters, layout_parameters, h]

theorem inputSize?_eq_form (network : Network α) :
    network.inputSize? =
      network.form.findSome? fun form => form.map fun shapes => shapes.1.rows := by
  rw [form, List.findSome?_map, inputSize?]
  exact congrArg (network.layers.findSome? ·) (funext Layer.inputSize?_eq_form)

/-- Networks of one form take the same number of features. -/
theorem inputSize?_of_form {β : Type} {network : Network α} {other : Network β}
    (h : network.form = other.form) : network.inputSize? = other.inputSize? := by
  rw [inputSize?_eq_form, inputSize?_eq_form, h]

section Stripped

variable [Zero α]

@[simp] theorem form_stripped (network : Network α) : network.stripped.form = network.form := by
  rw [form, stripped, List.map_map]
  exact List.map_congr_left fun layer _ => Layer.form_stripped layer

theorem namedFrom_stripped (position : Nat) (layers : List (Layer α)) :
    namedFrom Layer.parameters position (layers.map Layer.stripped) =
      namedFrom Layer.parameters position layers := by
  induction layers generalizing position with
  | nil => rfl
  | cons layer rest ih =>
    rw [List.map_cons, namedFrom, namedFrom, Layer.parameters_stripped, ih (position + 1)]

@[simp] theorem parameters_stripped (network : Network α) :
    network.stripped.parameters = network.parameters := by
  refine Catalog.ext_entries ?_
  rw [entries_parameters, entries_parameters]
  exact namedFrom_stripped 0 network.layers

/-- Networks that differ in what passes have left in them have one form. -/
theorem form_of_stripped {network other : Network α} (h : network.stripped = other.stripped) :
    network.form = other.form := by
  rw [← form_stripped, h, form_stripped]

/-- Networks that differ in what passes have left in them have the same parameters. -/
theorem parameters_of_stripped {network other : Network α}
    (h : network.stripped = other.stripped) : network.parameters = other.parameters := by
  rw [← parameters_stripped, h, parameters_stripped]

section Predictions

variable [Add α] [Mul α]

theorem predictThrough_stripped (layers : List (Layer α)) (x : Matrix α) :
    predictThrough (layers.map Layer.stripped) x = predictThrough layers x := by
  induction layers generalizing x with
  | nil => rfl
  | cons layer rest ih =>
    rw [List.map_cons, predictThrough, predictThrough, Layer.predict_stripped]
    cases layer.predict x with
    | error fault => rfl
    | ok y => exact ih y

@[simp] theorem predict_stripped (network : Network α) (x : Matrix α) :
    network.stripped.predict x = network.predict x := by
  have herror : network.stripped.inputError? x = network.inputError? x := by
    rw [inputError?, inputError?, inputSize?_of_form (form_stripped network)]
  have hthrough : predictThrough network.stripped.layers x = predictThrough network.layers x :=
    predictThrough_stripped network.layers x
  rw [predict, predict, herror, hthrough]

/-- Networks that differ in what passes have left in them predict the same. -/
theorem predict_of_stripped {network other : Network α} (h : network.stripped = other.stripped)
    (x : Matrix α) : network.predict x = other.predict x := by
  rw [← predict_stripped, h, predict_stripped]

end Predictions

end Stripped

/-- Layers from a position on with the parameters that are given for them. -/
def overwrittenFrom (given : Parameters α) : (position : Nat) → List (Layer α) → List (Layer α)
  | _, [] => []
  | position, layer :: rest =>
    layer.withParameters (fun name => given.find? (parameterName position name)) ::
      overwrittenFrom given (position + 1) rest

/-- The network with the parameters that are given for it. -/
def overwritten (network : Network α) (given : Parameters α) : Network α :=
  ⟨overwrittenFrom given 0 network.layers⟩

theorem installFrom_eq_ok {given : Parameters α} {position : Nat} {layers : List (Layer α)}
    (h : ∀ entry ∈ namedFrom Layer.parameters position layers,
      ∃ m, given.find? entry.1 = some m) :
    installFrom given position layers = .ok (overwrittenFrom given position layers) := by
  induction layers generalizing position with
  | nil => rfl
  | cons layer rest ih =>
    rw [namedFrom, List.forall_mem_append, List.forall_mem_map] at h
    rw [installFrom, Layer.overwrite_eq_ok h.1, ih h.2]
    rfl

theorem form_overwrittenFrom {given : Parameters α} {position : Nat} {layers : List (Layer α)}
    (h : ∀ entry ∈ namedFrom Layer.parameters position layers,
      ∃ m, given.find? entry.1 = some m ∧ m.shape = entry.2.shape) :
    (overwrittenFrom given position layers).map Layer.form = layers.map Layer.form := by
  induction layers generalizing position with
  | nil => rfl
  | cons layer rest ih =>
    rw [namedFrom, List.forall_mem_append, List.forall_mem_map] at h
    rw [overwrittenFrom, List.map_cons, List.map_cons, ih h.2, Layer.form_withParameters h.1]

theorem namedFrom_overwrittenFrom (given : Parameters α) (position : Nat)
    (layers : List (Layer α)) :
    namedFrom Layer.parameters position (overwrittenFrom given position layers) =
      (namedFrom Layer.parameters position layers).map fun entry =>
        (entry.1, (given.find? entry.1).getD entry.2) := by
  induction layers generalizing position with
  | nil => rfl
  | cons layer rest ih =>
    rw [overwrittenFrom, namedFrom, namedFrom, List.map_append, ih (position + 1),
      Layer.parameters_withParameters, List.map_map, List.map_map]
    rfl

/-- Each own parameter has become the one given under its name. -/
theorem parameters_overwritten (network : Network α) (given : Parameters α) :
    (network.overwritten given).parameters =
      network.parameters.mapEntries fun name own => (given.find? name).getD own := by
  refine Catalog.ext_entries ?_
  rw [entries_parameters]
  change namedFrom Layer.parameters 0 (overwrittenFrom given 0 network.layers) =
    network.parameters.entries.map _
  rw [namedFrom_overwrittenFrom, entries_parameters]

/-- Once each own name is given with its shape, every layer is overwritten and
no name is looked up in vain. -/
theorem install_eq (network : Network α) (given : Parameters α) :
    network.install given = .ok
      (if network.parameters.size = given.size then
        match network.parameters.mismatch? given with
        | some name => .error (.unsuitableParameter name)
        | none => .ok (network.overwritten given)
      else .error (.differentSizes network.parameters.size given.size)) := by
  unfold install
  dsimp only
  split
  · cases h : network.parameters.mismatch? given with
    | some name => rfl
    | none =>
      have hfound : ∀ entry ∈ namedFrom Layer.parameters 0 network.layers,
          ∃ m, given.find? entry.1 = some m := by
        intro entry hentry
        rw [← entries_parameters] at hentry
        obtain ⟨m, hm, _⟩ := Parameters.find?_of_mismatch? h hentry
        exact ⟨m, hm⟩
      dsimp only
      rw [installFrom_eq_ok hfound]
      rfl
  · rfl

/-- What an accepted installation leaves. -/
theorem eq_of_install {network result : Network α} {given : Parameters α}
    (h : network.install given = .ok (.ok result)) :
    result = network.overwritten given ∧ network.parameters.mismatch? given = none := by
  rw [install_eq] at h
  have h := Except.ok.inj h
  split at h
  · split at h
    · cases h
    · rename_i hmismatch
      exact ⟨(Except.ok.inj h).symm, hmismatch⟩
  · cases h

/-- Installing parameters keeps the form of the network. -/
theorem form_of_install {network result : Network α} {given : Parameters α}
    (h : network.install given = .ok (.ok result)) : result.form = network.form := by
  obtain ⟨rfl, hmismatch⟩ := eq_of_install h
  refine form_overwrittenFrom fun entry hentry => ?_
  rw [← entries_parameters] at hentry
  exact Parameters.find?_of_mismatch? hmismatch hentry

/-- Parameters of the network's own layout are accepted, and become its parameters. -/
theorem install_of_layout {network : Network α} {given : Parameters α}
    (h : given.layout = network.parameters.layout) :
    ∃ result, network.install given = .ok (.ok result) ∧ result.parameters = given ∧
      result.form = network.form := by
  have hinstall : network.install given = .ok (.ok (network.overwritten given)) := by
    rw [install_eq, if_pos (Parameters.size_of_layout h.symm),
      Parameters.mismatch?_of_layout h.symm]
  refine ⟨_, hinstall, ?_, form_of_install hinstall⟩
  rw [parameters_overwritten]
  exact Parameters.mapEntries_find? h

/-- Every network takes its own parameters. -/
theorem install_parameters (network : Network α) :
    network.install network.parameters = .ok (.ok (network.overwritten network.parameters)) := by
  rw [install_eq, if_pos rfl, Parameters.mismatch?_of_layout rfl]

end Network

end DeferredReward
