import DeferredReward.Proofs.Network.Batches
import DeferredReward.Proofs.Network.Sessions

/-!
# Training and inference

A network is trained on what its forward passes give, and asked for what it predicts.
The two go through the layers separately, one changing them on the way and the other
not. Nothing is asked of the network here: its layers need not fit each other, and any
passes may have been made or broken off before. On every batch both have the same
output, the same refusal or the same fault.

A forward pass leaves behind what the backward pass needs, in each layer the output of
the layers before it, and nothing that a prediction could depend on. That remains so
whatever is done to the network later: only the catalogs it takes make a difference.

Main statements: `Session.stripped`, `forward_agrees_with_predict`.
-/

namespace DeferredReward

variable {α : Type}

namespace Layer

theorem gradients_remember (layer : Layer α) (x : Matrix α) :
    (layer.remember x).gradients = layer.gradients := by
  cases layer <;> rfl

/-- What passes have left in a layer has no influence on what its parameters become. -/
theorem stripped_withParameters [Zero α] (layer : Layer α)
    (find? : String → Option (Matrix α)) :
    (layer.stripped.withParameters find?).stripped = (layer.withParameters find?).stripped := by
  cases layer <;> rfl

end Layer

namespace Network

/-- The matrices of a network are told by those of its layers. -/
theorem collect_congr {select : Layer α → List (String × Matrix α)} {network other : Network α}
    (h : network.layers.map select = other.layers.map select) :
    network.collect select = other.collect select := by
  have hcollect : ∀ network : Network α, network.collect select =
      Catalog.ofList ((network.layers.map select).zipIdx.flatMap fun entry =>
        entry.1.map fun named => (parameterName entry.2 named.1, named.2)) := by
    intro network
    rw [List.zipIdx_map, List.flatMap_map]
    rfl
  rw [hcollect, h, ← hcollect]

/-! ## Catalogs that are taken -/

/-- The catalog that a network takes in an event. -/
def taken? : Request α × Response α → Option (Parameters α)
  | (.load given, .loaded (.ok ())) => some given
  | _ => none

/-- The catalogs that a network takes in events, in order. -/
def taken (events : Events α) : List (Parameters α) := events.filterMap taken?

section Zero

variable [Zero α]

theorem stripped_overwrittenFrom_stripped (given : Parameters α) (position : ℕ)
    (layers : List (Layer α)) :
    (overwrittenFrom given position (layers.map Layer.stripped)).map Layer.stripped =
      (overwrittenFrom given position layers).map Layer.stripped := by
  induction layers generalizing position with
  | nil => rfl
  | cons layer rest ih =>
    rw [List.map_cons, overwrittenFrom, overwrittenFrom, List.map_cons, List.map_cons, ih,
      Layer.stripped_withParameters]

/-- What passes have left in a network has no influence on what its parameters become. -/
theorem stripped_overwritten {network other : Network α} (h : network.stripped = other.stripped)
    (given : Parameters α) :
    (network.overwritten given).stripped = (other.overwritten given).stripped := by
  have hoverwritten : ∀ network : Network α,
      (network.stripped.overwritten given).stripped = (network.overwritten given).stripped :=
    fun network => congrArg Network.mk (stripped_overwrittenFrom_stripped given 0 network.layers)
  rw [← hoverwritten, h, hoverwritten]

theorem stripped_foldl_overwritten {network other : Network α}
    (h : network.stripped = other.stripped) (catalogs : List (Parameters α)) :
    (catalogs.foldl overwritten network).stripped = (catalogs.foldl overwritten other).stripped := by
  induction catalogs generalizing network other with
  | nil => exact h
  | cons given rest ih => exact ih (stripped_overwritten h given)

end Zero

variable [Zero α] [Add α] [Mul α]

/-- A request changes what a network is without its passes only by a catalog that is taken. -/
theorem stripped_of_respond {network after : Network α} {request : Request α}
    {response : Response α} (h : network.respond request = .ok (response, after)) :
    after.stripped =
      ((taken? (request, response)).toList.foldl overwritten network).stripped := by
  cases request with
  | forward x =>
    obtain ⟨⟨answer, kept⟩, hforward, h⟩ := exists_of_bind_eq_ok h
    cases h
    exact stripped_of_forward hforward
  | predict x =>
    obtain ⟨answer, _, h⟩ := exists_of_bind_eq_ok h
    cases h
    rfl
  | backward error =>
    obtain ⟨⟨answer, left⟩, hbackward, h⟩ := exists_of_bind_eq_ok h
    cases h
    exact stripped_of_backward hbackward
  | load given =>
    obtain ⟨⟨answer, result⟩, hload, h⟩ := exists_of_bind_eq_ok h
    cases h
    obtain ⟨taken, hinstall, hsame⟩ := load_eq network given
    rw [hsame] at hload
    cases taken with
    | ok result =>
      cases hload
      exact congrArg stripped (eq_of_install hinstall).1
    | error cause =>
      cases hload
      rfl
  | parameters =>
    cases h
    rfl
  | copy =>
    cases h
    rfl

/-- Without what passes have left in it, a network is what the catalogs taken have made
of the first one. -/
theorem Session.stripped {first network : Network α} {events : Events α}
    (session : first.Session events network) :
    network.stripped = ((taken events).foldl overwritten first).stripped := by
  induction session with
  | start => rfl
  | @next events network after request response _ h ih =>
    have htaken : taken (events ++ [(request, response)]) =
        taken events ++ (taken? (request, response)).toList := by
      rw [taken, List.filterMap_append]
      cases hlast : taken? (request, response) <;> simp [taken, hlast]
    rw [htaken, List.foldl_append, stripped_of_respond h]
    exact stripped_foldl_overwritten ih _

/-- Networks that differ in what passes have left in them, and take the same catalogs
later, predict the same then. -/
theorem predict_of_sessions {network other after after' : Network α} {events events' : Events α}
    (h : network.stripped = other.stripped) (session : network.Session events after)
    (session' : other.Session events' after') (htaken : taken events = taken events')
    (x : Matrix α) : after.predict x = after'.predict x := by
  refine predict_of_stripped ?_ x
  rw [session.stripped, session'.stripped, htaken]
  exact stripped_foldl_overwritten h _

/-- A batch is refused exactly when the network reports another width. -/
theorem predict_eq_error_iff (network : Network α) (x : Matrix α) (cause : NetworkError) :
    network.predict x = .ok (.error cause) ↔
      ∃ width, network.inputSize? = some width ∧ width ≠ x.cols ∧
        cause = .inputWidth width x.cols := by
  have hpredict : network.predict x = .ok (.error cause) ↔ network.inputError? x = some cause := by
    rw [predict]
    cases network.inputError? x with
    | some found => simp
    | none => cases predictThrough network.layers x <;> simp [bind, Except.bind, pure, Except.pure]
  rw [hpredict, inputError?]
  cases network.inputSize? with
  | none => simp
  | some width =>
    by_cases hwidth : width = x.cols
    · simp [hwidth]
    · simp [hwidth, eq_comm]

/-- The pass saves the output of the layers before it in each layer, and changes nothing
else. -/
def Saves (network : Network α) (x : Matrix α) (kept : Network α) : Prop :=
  kept.layers.length = network.layers.length ∧ ∀ i layer, network.layers[i]? = some layer →
    ∃ input, predictThrough (network.layers.take i) x = .ok input ∧
      kept.layers[i]? = some (layer.remember input)

/-- A forward pass and a prediction have the same outcome on every batch, whatever the
layers are and whatever is left in them: the same output, the same refusal of another
width than the network takes, or the same fault. A refused pass leaves the network as it
is. One that goes through saves in each layer the output of the layers before it; the
parameters, the gradients and all predictions stay the same, and so do the predictions
after anything that is done to the network later, as if the pass had not been made. -/
theorem forward_agrees_with_predict (network : Network α) (x : Matrix α) :
    (network.forward x).map Prod.fst = network.predict x ∧
    (∀ cause, network.predict x = .ok (.error cause) ↔
      ∃ width, network.inputSize? = some width ∧ width ≠ x.cols ∧
        cause = .inputWidth width x.cols) ∧
    (∀ cause after, network.forward x = .ok (.error cause, after) → after = network) ∧
    ∀ y kept, network.forward x = .ok (.ok y, kept) →
      network.Saves x kept ∧ kept.parameters = network.parameters ∧
      kept.gradients = network.gradients ∧
      (∀ later, kept.predict later = network.predict later) ∧
      ∀ events events' after after', kept.Session events after →
        network.Session events' after' → taken events = taken events' →
        ∀ later, after.predict later = after'.predict later := by
  refine ⟨forward_map_fst network x, predict_eq_error_iff network x,
    fun _ _ => eq_of_forward_refused, fun y kept h => ?_⟩
  obtain ⟨-, hthrough⟩ := forwardThrough_of_forward h
  have hstripped := stripped_of_forward h
  exact ⟨remembered_of_forwardThrough hthrough, parameters_of_stripped hstripped,
    collect_congr (map_of_forwardThrough Layer.gradients_remember hthrough),
    predict_of_stripped hstripped, fun _ _ _ _ => predict_of_sessions hstripped⟩

/-- A dense layer with the input of a pass that has been broken off, under a rectifier. -/
def brokenOff : Network Float :=
  ⟨[.dense { Dense.ofParts (.row #[2]) (.row #[1]) with input := some (.row #[5, 6, 7]) },
    .ofCurve Activation.relu.curve]⟩

/-- The next forward pass gives what is predicted and saves its own input in that layer.
Another width is refused. -/
theorem forward_agrees_with_predict_brokenOff :
    (∃ y kept, brokenOff.forward (.row #[3]) = .ok (.ok y, kept) ∧
      brokenOff.predict (.row #[3]) = .ok (.ok y) ∧
      (kept.layers[0]?.bind Layer.input?) = some (.row #[3]) ∧
      kept.parameters = brokenOff.parameters) ∧
    brokenOff.predict (.row #[1, 2]) = .ok (.error (.inputWidth 1 2)) := by
  have hchained : Chained 1 brokenOff.layers 1 := ⟨1, ⟨rfl, rfl⟩, 1, rfl, rfl⟩
  have hforward : brokenOff.forward (.row #[3]) = .ok (.ok _, _) :=
    bind_eq_of_ok (forwardThrough_eq hchained rfl).1
  obtain ⟨hagrees, -, -, hkept⟩ := forward_agrees_with_predict brokenOff (.row #[3])
  obtain ⟨⟨-, hsaves⟩, hparameters, -⟩ := hkept _ _ hforward
  obtain ⟨input, hinput, hfirst⟩ := hsaves 0 _ rfl
  obtain ⟨-, hrefuses, -⟩ := forward_agrees_with_predict brokenOff (.row #[1, 2])
  cases hinput
  refine ⟨⟨_, _, hforward, ?_, congrArg (·.bind Layer.input?) hfirst, hparameters⟩,
    (hrefuses _).2 ⟨1, rfl, by decide, rfl⟩⟩
  rw [← hagrees, hforward]
  rfl

end Network

end DeferredReward
