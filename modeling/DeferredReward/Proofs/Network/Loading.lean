import DeferredReward.Arithmetic.Double
import DeferredReward.Proofs.Fault
import DeferredReward.Proofs.Network.Form
import DeferredReward.Proofs.Parameters.Suited

/-!
# Loading parameters

A network takes a catalog of parameters as a whole or not at all. It takes it
exactly when the catalog has the network's own names with their shapes, which is
checked by the number of parameters and by looking up each own name. What is given
beyond them would be one too many, as the own names are all different. So the order
of the catalog does not matter, and after it has been taken nothing that the network
predicts depends on the parameters it had before.

The parameters are written in place, one by one and with repeated rows and columns
where a given matrix is smaller; after the check every write is an exact copy and
none of them fails.

Main statements: `load_eq`, `installed_of_install`, `install_outcome`.
-/

namespace DeferredReward

variable {α : Type}

namespace Matrix

/-- A copy onto a matrix of the same shape is the matrix that is copied. -/
theorem zip_right {β : Type} [Zero α] [Zero β] {a : Matrix α} {b : Matrix β}
    (h : b.shape = a.shape) : zip (fun _ new => new) a b = b := by
  obtain ⟨hrows, hcols⟩ : b.rows = a.rows ∧ b.cols = a.cols := by simpa [shape] using h
  exact ext_entry hrows.symm hcols.symm fun i j hi hj => entry_zip _ a b hi hj

end Matrix

namespace Layer

/-- The layer has weights and a bias. -/
def isDense : Layer α → Bool
  | dense _ => true
  | activation _ _ => false

/-- The layers are both dense or both apply the same function. -/
inductive SameKind : Layer α → Layer α → Prop where
  | dense (a b : Dense α) : SameKind (.dense a) (.dense b)
  | activation (curve : Pointwise α) (input input' : Option (Matrix α)) :
    SameKind (.activation curve input) (.activation curve input')

/-- The layers differ in weights and bias at most. -/
inductive Reparametrized : Layer α → Layer α → Prop where
  | dense (layer : Dense α) (weights bias : Matrix α) :
    Reparametrized (.dense layer) (.dense { layer with weights, bias })
  | activation (curve : Pointwise α) (input : Option (Matrix α)) :
    Reparametrized (.activation curve input) (.activation curve input)

theorem reparametrized_withParameters (find? : String → Option (Matrix α)) (layer : Layer α) :
    layer.Reparametrized (layer.withParameters find?) := by
  cases layer with
  | dense layer => exact .dense layer _ _
  | activation curve input => exact .activation curve input

/-- Layers of one kind that were given the same parameters are the same layer but for
what passes have left in them. -/
theorem SameKind.stripped_withParameters [Zero α] {layer other : Layer α}
    (h : layer.SameKind other) {find? : String → Option (Matrix α)}
    (hfound : ∀ entry ∈ layer.parameters, ∃ m, find? entry.1 = some m) :
    (layer.withParameters find?).stripped = (other.withParameters find?).stripped := by
  cases h with
  | dense a b =>
    obtain ⟨weights, hweights⟩ := hfound ("weight", a.weights) (by simp [parameters])
    obtain ⟨bias, hbias⟩ := hfound ("bias", a.bias) (by simp [parameters])
    dsimp only at hweights hbias
    rw [withParameters, withParameters, hweights, hbias]
    rfl
  | activation curve input input' => rfl

/-- A value of the shape of the parameter is put in its place as it is. -/
theorem assign?_eq [Zero α] {layer : Layer α} {name key : String} {own value : Matrix α}
    (hown : layer.parameters.find? (fun entry => entry.1 == name) = some (key, own))
    (hshape : value.shape = own.shape) :
    layer.assign? name value = some (.ok (layer.withParameters fun other =>
      if other = name then some value else none)) := by
  rw [assign?, hown, Option.map_some]
  dsimp only
  rw [hshape, Matrix.joinShape?_self, if_pos rfl, Matrix.combine_of_shape_eq _ hshape,
    Matrix.zip_right hshape]
  rfl

/-- The named parameters of a layer are assigned one after the other. -/
def assignAll [Zero α] (fetch : String → Except Fault (Matrix α)) :
    List String → Layer α → Except Fault (Layer α)
  | [], layer => .ok layer
  | name :: rest, layer => do
    match layer.assign? name (← fetch name) with
    | some assigned => assignAll fetch rest (← assigned)
    | none => assignAll fetch rest layer

/-- With values of their shapes all parameters are replaced. -/
theorem assignAll_eq [Zero α] {given : Parameters α} {rename : String → String} {layer : Layer α}
    (h : ∀ entry ∈ layer.parameters,
      ∃ m, given.find? (rename entry.1) = some m ∧ m.shape = entry.2.shape) :
    layer.assignAll (fun name => given.fetch (rename name)) (layer.parameters.map Prod.fst) =
      .ok (layer.withParameters fun name => given.find? (rename name)) := by
  cases layer with
  | dense layer =>
    obtain ⟨weights, hweights, hwshape⟩ := h ("weight", layer.weights) (by simp [parameters])
    obtain ⟨bias, hbias, hbshape⟩ := h ("bias", layer.bias) (by simp [parameters])
    dsimp only at hweights hbias hwshape hbshape
    have hfirst : (Layer.dense layer).assign? "weight" weights =
        some (.ok (.dense { layer with weights })) := assign?_eq rfl hwshape
    have hsecond : (Layer.dense { layer with weights }).assign? "bias" bias =
        some (.ok (.dense { layer with weights, bias })) := assign?_eq rfl hbshape
    rw [parameters, List.map_cons, List.map_cons, List.map_nil, assignAll,
      Parameters.fetch_eq_ok hweights, bind_eq_of_ok rfl, hfirst]
    dsimp only
    rw [bind_eq_of_ok rfl, assignAll, Parameters.fetch_eq_ok hbias, bind_eq_of_ok rfl, hsecond]
    dsimp only
    rw [bind_eq_of_ok rfl, assignAll, withParameters, hweights, hbias]
    rfl
  | activation curve input => rfl

end Layer

namespace Network

/-- Layers from a position on, with their parameters assigned in place. -/
def assignFrom [Zero α] (given : Parameters α) : (position : Nat) → List (Layer α) →
    Except Fault (List (Layer α))
  | _, [] => .ok []
  | position, layer :: rest => do
    let layer ← layer.assignAll (fun name => given.fetch (parameterName position name))
      (layer.parameters.map Prod.fst)
    return layer :: (← assignFrom given (position + 1) rest)

/-- Parameters loaded in place: the refusal if there is one, and the network as it is left. -/
def load [Zero α] (network : Network α) (given : Parameters α) :
    Except Fault (Except NetworkError Unit × Network α) :=
  let own := network.parameters
  if own.size = given.size then
    match own.mismatch? given with
    | some name => .ok (.error (.unsuitableParameter name), network)
    | none => do return (.ok (), ⟨← assignFrom given 0 network.layers⟩)
  else .ok (.error (.differentSizes own.size given.size), network)

/-- What a caller sees of parameters that are loaded in place. -/
def seen (network : Network α) :
    Except NetworkError (Network α) → Except NetworkError Unit × Network α
  | .ok result => (.ok (), result)
  | .error cause => (.error cause, network)

theorem assignFrom_eq [Zero α] {given : Parameters α} {position : ℕ} {layers : List (Layer α)}
    (h : ∀ entry ∈ namedFrom Layer.parameters position layers,
      ∃ m, given.find? entry.1 = some m ∧ m.shape = entry.2.shape) :
    assignFrom given position layers = .ok (overwrittenFrom given position layers) := by
  induction layers generalizing position with
  | nil => rfl
  | cons layer rest ih =>
    rw [namedFrom, List.forall_mem_append, List.forall_mem_map] at h
    rw [assignFrom, Layer.assignAll_eq h.1, bind_eq_of_ok rfl, ih h.2]
    rfl

/-- In place, too, parameters are loaded without a fault, as a whole or not at all. -/
theorem load_eq [Zero α] (network : Network α) (given : Parameters α) :
    ∃ answer, network.install given = .ok answer ∧
      network.load given = .ok (network.seen answer) := by
  refine ⟨_, install_eq network given, ?_⟩
  unfold load
  dsimp only
  split
  · cases h : network.parameters.mismatch? given with
    | some name => rfl
    | none =>
      have hfound : ∀ entry ∈ namedFrom Layer.parameters 0 network.layers,
          ∃ m, given.find? entry.1 = some m ∧ m.shape = entry.2.shape := by
        rw [← entries_parameters]
        exact fun entry hentry => Parameters.find?_of_mismatch? h hentry
      dsimp only
      rw [assignFrom_eq hfound]
      rfl
  · rfl

/-- What becomes of a catalog is decided by comparing it with the own parameters. -/
theorem install_eq_compared (network : Network α) (given : Parameters α) :
    network.install given = .ok (network.parameters.compared given
      (.differentSizes network.parameters.size given.size) (network.overwritten given)) :=
  install_eq network given

/-- A network takes exactly the catalogs with its own names and their shapes. -/
theorem install_accepts_iff (network : Network α) (given : Parameters α) :
    (∃ result, network.install given = .ok (.ok result)) ↔ network.parameters.Matches given := by
  simp only [install_eq_compared, Except.ok.injEq, Parameters.compared_eq_ok_iff, exists_and_left,
    exists_eq, and_true]

/-- It refuses another number of parameters, and otherwise names the first of its own
that is not given with its shape. -/
theorem install_refuses_iff (network : Network α) (given : Parameters α) (cause : NetworkError) :
    network.install given = .ok (.error cause) ↔
      (network.parameters.size ≠ given.size ∧
        cause = .differentSizes network.parameters.size given.size) ∨
      (network.parameters.size = given.size ∧
        ∃ name, network.parameters.FirstUnsuited given name ∧
          cause = .unsuitableParameter name) := by
  rw [install_eq_compared, Except.ok.injEq, Parameters.compared_eq_error_iff]

/-- The network that has taken a catalog: its names in their order with the values of
the catalog, and everything but weights and biases as it was. -/
structure Installed (network : Network α) (given : Parameters α) (result : Network α) : Prop where
  names : result.parameters.names = network.parameters.names
  values : ∀ name, result.parameters.find? name = given.find? name
  layers : List.Forall₂ Layer.Reparametrized network.layers result.layers

theorem reparametrized_overwrittenFrom (given : Parameters α) (position : ℕ)
    (layers : List (Layer α)) :
    List.Forall₂ Layer.Reparametrized layers (overwrittenFrom given position layers) := by
  induction layers generalizing position with
  | nil => exact .nil
  | cons layer rest ih =>
    exact .cons (Layer.reparametrized_withParameters _ layer) (ih (position + 1))

theorem installed_of_install {network result : Network α} {given : Parameters α}
    (h : network.install given = .ok (.ok result)) : network.Installed given result := by
  have hmatches := (install_accepts_iff network given).1 ⟨result, h⟩
  obtain ⟨rfl, _⟩ := eq_of_install h
  refine ⟨?_, fun name => ?_, reparametrized_overwrittenFrom given 0 network.layers⟩
  · rw [parameters_overwritten, Catalog.names_mapEntries]
  · have hshape := hmatches name
    rw [parameters_overwritten, Catalog.find?_mapEntries]
    cases hown : network.parameters.find? name with
    | none =>
      rw [hown, Option.map_none, Option.map_eq_none_iff] at hshape
      rw [hshape, Option.map_none]
    | some own =>
      rw [hown, Option.map_some] at hshape
      obtain ⟨m, hm, _⟩ := Option.map_eq_some_iff.1 hshape
      rw [hm, Option.map_some, Option.getD_some]

/-- The order in which a catalog lists its parameters does not matter. -/
theorem install_of_perm (network : Network α) {given other : Parameters α}
    (h : other.entries.Perm given.entries) : network.install other = network.install given := by
  have hfind : other.find? = given.find? := funext (Catalog.find?_of_perm h)
  have hover : ∀ (position : ℕ) (layers : List (Layer α)),
      overwrittenFrom other position layers = overwrittenFrom given position layers := by
    intro position layers
    induction layers generalizing position with
    | nil => rfl
    | cons layer rest ih => rw [overwrittenFrom, overwrittenFrom, ih, hfind]
  rw [install_eq, install_eq, Catalog.size, Catalog.size, Catalog.size, h.length_eq,
    Parameters.mismatch?_of_perm _ h, overwritten, hover]
  rfl

theorem stripped_overwrittenFrom [Zero α] {given : Parameters α} {layers others : List (Layer α)}
    (hkinds : List.Forall₂ Layer.SameKind layers others) {position : ℕ}
    (hfound : ∀ entry ∈ namedFrom Layer.parameters position layers,
      ∃ m, given.find? entry.1 = some m) :
    (overwrittenFrom given position layers).map Layer.stripped =
      (overwrittenFrom given position others).map Layer.stripped := by
  induction hkinds generalizing position with
  | nil => rfl
  | cons hkind _ ih =>
    rw [namedFrom, List.forall_mem_append, List.forall_mem_map] at hfound
    rw [overwrittenFrom, overwrittenFrom, List.map_cons, List.map_cons, ih hfound.2,
      hkind.stripped_withParameters hfound.1]

/-- Networks of the same kinds of layers that have taken one catalog predict the same. -/
theorem predict_of_install [Zero α] [Add α] [Mul α] {network other result result' : Network α}
    {given : Parameters α} (hkinds : List.Forall₂ Layer.SameKind network.layers other.layers)
    (h : network.install given = .ok (.ok result))
    (h' : other.install given = .ok (.ok result')) (x : Matrix α) :
    result.predict x = result'.predict x := by
  obtain ⟨rfl, hmismatch⟩ := eq_of_install h
  obtain ⟨rfl, _⟩ := eq_of_install h'
  refine predict_of_stripped (congrArg Network.mk (stripped_overwrittenFrom hkinds ?_)) x
  intro entry hentry
  rw [← entries_parameters] at hentry
  obtain ⟨m, hm, _⟩ := Parameters.find?_of_mismatch? hmismatch hentry
  exact ⟨m, hm⟩

/-- A network has two parameters for each dense layer. -/
theorem size_parameters (network : Network α) :
    network.parameters.size = 2 * network.layers.countP Layer.isDense := by
  have hcount : ∀ (position : ℕ) (layers : List (Layer α)),
      (namedFrom Layer.parameters position layers).length = 2 * layers.countP Layer.isDense := by
    intro position layers
    induction layers generalizing position with
    | nil => rfl
    | cons layer rest ih =>
      rw [namedFrom, List.length_append, List.length_map, ih, List.countP_cons]
      cases layer with
      | dense layer =>
        change 2 + _ = 2 * (_ + 1)
        omega
      | activation curve input =>
        change 0 + _ = 2 * (_ + 0)
        omega
  rw [Catalog.size, entries_parameters, hcount]

/-- For every network and every catalog of parameters there is an answer, and loading
in place comes to the same one, with the network as it was after a refusal. The
network takes exactly the catalogs with its own names and their shapes, in whatever
order. Its parameters are then the values of the catalog in its own order; nothing
else in it has changed, and it predicts what every network of the same kinds of
layers does that has taken the catalog. It refuses another number of parameters, and
otherwise names the first of its own that is absent or of another shape. No two
layers share a name: the parameters are those of the layers one after the other, two
for each dense layer. -/
theorem install_outcome [Zero α] [Add α] [Mul α] (network : Network α) (given : Parameters α) :
    (∃ answer, network.install given = .ok answer ∧
      network.load given = .ok (network.seen answer)) ∧
    ((∃ result, network.install given = .ok (.ok result)) ↔ network.parameters.Matches given) ∧
    (∀ other : Parameters α, other.entries.Perm given.entries →
      network.install other = network.install given) ∧
    (∀ result, network.install given = .ok (.ok result) →
      network.Installed given result ∧
      ∀ other result' : Network α, List.Forall₂ Layer.SameKind network.layers other.layers →
        other.install given = .ok (.ok result') → ∀ x, result.predict x = result'.predict x) ∧
    (∀ cause, network.install given = .ok (.error cause) ↔
      (network.parameters.size ≠ given.size ∧
        cause = .differentSizes network.parameters.size given.size) ∨
      (network.parameters.size = given.size ∧
        ∃ name, network.parameters.FirstUnsuited given name ∧
          cause = .unsuitableParameter name)) ∧
    (∀ i j name other, parameterName i name = parameterName j other ↔ i = j ∧ name = other) ∧
    (network.parameters.entries = network.layers.zipIdx.flatMap fun (layer, i) =>
      layer.parameters.map fun (name, value) => (parameterName i name, value)) ∧
    network.parameters.size = 2 * network.layers.countP Layer.isDense := by
  refine ⟨load_eq network given, install_accepts_iff network given,
    fun _ => install_of_perm network, fun result hinstall => ⟨installed_of_install hinstall, ?_⟩,
    install_refuses_iff network given, fun _ _ _ _ => parameterName_inj, ?_,
    size_parameters network⟩
  · intro other result' hkinds hinstall' x
    exact predict_of_install hkinds hinstall hinstall' x
  · rw [entries_parameters]
    exact (flatMap_zipIdx Layer.parameters 0 network.layers).symm

/-- A network of one dense layer with a single weight. -/
def lone : Network Float := ⟨[.dense (.ofParts (.row #[2.0]) (.row #[1.0]))]⟩

/-- New values for it, the bias first. -/
def biasFirst : Parameters Float :=
  .ofList [("layers.0.bias", .row #[0.5]), ("layers.0.weight", .row #[-1.0])]

/-- The values are taken though they are listed the other way round, and come back in
the order of the network; one that stands alone is refused. -/
theorem install_outcome_lone :
    (∃ result, lone.install biasFirst = .ok (.ok result) ∧
      result.parameters.names = ["layers.0.weight", "layers.0.bias"] ∧
      result.parameters.find? "layers.0.weight" = some (.row #[-1.0])) ∧
    lone.install (.ofList [("layers.0.bias", .row #[0.5])]) =
      .ok (.error (.differentSizes 2 1)) := by
  obtain ⟨-, haccepts, -, hresult, -⟩ := install_outcome lone biasFirst
  have hmatches : lone.parameters.Matches biasFirst := by
    rw [← Parameters.suitedBy_and_size_iff, ← Parameters.mismatch?_eq_none_iff_suitedBy]
    exact ⟨rfl, by decide +kernel⟩
  obtain ⟨result, hinstall⟩ := haccepts.2 hmatches
  obtain ⟨hinstalled, -⟩ := hresult result hinstall
  obtain ⟨-, -, -, -, hrefuses, -⟩ :=
    install_outcome lone (.ofList [("layers.0.bias", .row #[0.5])])
  exact ⟨⟨result, hinstall, hinstalled.names, hinstalled.values _⟩,
    (hrefuses _).2 (.inl ⟨by decide +kernel, rfl⟩)⟩

end Network

end DeferredReward
