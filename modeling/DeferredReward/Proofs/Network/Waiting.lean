import DeferredReward.Proofs.Network.Sessions

/-!
# Inputs waiting for a backward pass

Each layer gives its kept input away on its own, and a backward pass can stop at any
of them. Still, no session of a network that starts without kept inputs leaves some
layers with an input and others without: a forward pass leaves one in every layer, a
backward pass that goes through takes them all, and one that is refused meets the last
layer first, which then has none.

So a backward pass is refused exactly when no forward pass waits for it, and the
inputs it finds are those that the last forward pass has left. Beyond them, only the
parameters and the error have a say in what it does.

Main statements: `input?_of_backwardThrough`, `of_backwardThrough_refused`,
`Step.inputs_cases`, `Session.leftBy`, `Session.waiting`.
-/

namespace DeferredReward

variable {α : Type}

namespace Layer

/-- Layers of one kind with the same parameters are the same but for what passes have
left in them. -/
theorem SameKind.stripped_eq [Zero α] {layer other : Layer α} (h : layer.SameKind other)
    (hparameters : layer.parameters = other.parameters) : layer.stripped = other.stripped := by
  cases h with
  | dense a b =>
    simp only [parameters, List.cons.injEq, Prod.mk.injEq, true_and, and_true] at hparameters
    rw [stripped, stripped, hparameters.1, hparameters.2]
  | activation curve input input' => rfl

theorem Reparametrized.input?_eq {layer other : Layer α} (h : layer.Reparametrized other) :
    other.input? = layer.input? := by
  cases h <;> rfl

variable [Zero α] [Add α] [Mul α]

theorem input?_of_forward {layer result : Layer α} {x y : Matrix α}
    (h : layer.forward x = .ok (y, result)) : result.input? = some x := by
  obtain ⟨output, _, hresult⟩ := exists_of_bind_eq_ok h
  cases hresult
  cases layer <;> rfl

/-- A layer without an input refuses and stays as it is. -/
theorem backward_of_none {layer : Layer α} (h : layer.input? = none) (error : Matrix α) :
    layer.backward error = .ok (.error .noForwardPass, layer) := by
  cases layer with
  | dense layer =>
    change layer.input = none at h
    rw [backward, Dense.backward, h]
    rfl
  | activation curve input =>
    change input = none at h
    rw [h, backward]

/-- A layer with an input gives it away and does not refuse. -/
theorem backward_of_some {layer result : Layer α} {x error : Matrix α}
    {answer : Except NetworkError (Matrix α)} (hinput : layer.input? = some x)
    (h : layer.backward error = .ok (answer, result)) :
    (∃ inputError, answer = .ok inputError) ∧ result.input? = none := by
  cases layer with
  | dense layer =>
    change layer.input = some x at hinput
    rw [backward, Dense.backward, hinput] at h
    obtain ⟨⟨own, after⟩, hback, h⟩ := exists_of_bind_eq_ok h
    obtain ⟨inputError, _, hback⟩ := exists_of_bind_eq_ok hback
    obtain ⟨weightsGradient, _, hback⟩ := exists_of_bind_eq_ok hback
    cases hback
    cases h
    exact ⟨⟨inputError, rfl⟩, rfl⟩
  | activation curve input =>
    change input = some x at hinput
    rw [hinput, backward] at h
    obtain ⟨inputError, _, h⟩ := exists_of_bind_eq_ok h
    cases h
    exact ⟨⟨inputError, rfl⟩, rfl⟩

theorem input?_of_backward {layer result : Layer α} {error inputError : Matrix α}
    (h : layer.backward error = .ok (.ok inputError, result)) : result.input? = none := by
  cases hinput : layer.input? with
  | none =>
    rw [backward_of_none hinput] at h
    cases h
  | some x => exact (backward_of_some hinput h).2

theorem of_backward_refused {layer result : Layer α} {error : Matrix α} {cause : NetworkError}
    (h : layer.backward error = .ok (.error cause, result)) :
    cause = .noForwardPass ∧ layer.input? = none := by
  cases hinput : layer.input? with
  | none =>
    rw [backward_of_none hinput] at h
    cases h
    exact ⟨rfl, rfl⟩
  | some x =>
    obtain ⟨⟨_, hanswer⟩, _⟩ := backward_of_some hinput h
    cases hanswer

/-- The gradients recorded before have no influence on a backward pass. -/
theorem backward_congr {layer other : Layer α} {x : Matrix α}
    (hstripped : layer.stripped = other.stripped) (hlayer : layer.input? = some x)
    (hother : other.input? = some x) (error : Matrix α) :
    layer.backward error = other.backward error := by
  cases layer with
  | dense layer =>
    cases other with
    | dense other =>
      obtain ⟨weights, bias, weightsGradient, biasGradient, input⟩ := layer
      obtain ⟨weights', bias', weightsGradient', biasGradient', input'⟩ := other
      have hparts := Dense.mk.inj (Layer.dense.inj hstripped)
      obtain rfl := hparts.1
      obtain rfl := hparts.2.1
      obtain rfl : input = some x := hlayer
      obtain rfl : input' = some x := hother
      rfl
    | activation curve input => cases hstripped
  | activation curve input =>
    cases other with
    | dense other => cases hstripped
    | activation curve' input' =>
      obtain rfl := (Layer.activation.inj hstripped).1
      obtain rfl : input = input' := hlayer.trans hother.symm
      rfl

end Layer

namespace Network

/-- The inputs that the layers hold. -/
def inputs (network : Network α) : List (Option (Matrix α)) := network.layers.map Layer.input?

/-- Every layer holds an input. -/
def HoldsAll (network : Network α) : Prop := ∀ layer ∈ network.layers, ∃ x, layer.input? = some x

/-- No layer holds an input. -/
def HoldsNone (network : Network α) : Prop := ∀ layer ∈ network.layers, layer.input? = none

theorem holdsAll_iff_inputs (network : Network α) :
    network.HoldsAll ↔ ∀ input ∈ network.inputs, ∃ x, input = some x := by
  rw [HoldsAll, inputs, List.forall_mem_map]

theorem holdsNone_iff_inputs (network : Network α) :
    network.HoldsNone ↔ ∀ input ∈ network.inputs, input = none := by
  rw [HoldsNone, inputs, List.forall_mem_map]

theorem inputs_of_reparametrized {layers results : List (Layer α)}
    (h : List.Forall₂ Layer.Reparametrized layers results) :
    results.map Layer.input? = layers.map Layer.input? := by
  induction h with
  | nil => rfl
  | cons hlayer _ ih => rw [List.map_cons, List.map_cons, hlayer.input?_eq, ih]

/-- Loading parameters leaves the inputs where they are. -/
theorem Installed.inputs {network result : Network α} {given : Parameters α}
    (h : network.Installed given result) : result.inputs = network.inputs :=
  inputs_of_reparametrized h.layers

theorem stripped_of_namedFrom [Zero α] {layers others : List (Layer α)}
    (hkinds : List.Forall₂ Layer.SameKind layers others) (position : ℕ)
    (h : namedFrom Layer.parameters position layers =
      namedFrom Layer.parameters position others) :
    layers.map Layer.stripped = others.map Layer.stripped := by
  induction hkinds generalizing position with
  | nil => rfl
  | @cons layer other rest rest' hkind _ ih =>
    rw [namedFrom, namedFrom] at h
    obtain ⟨hown, hrest⟩ := List.append_inj h (by cases hkind <;> rfl)
    have hparameters : layer.parameters = other.parameters := by
      refine List.map_injective_iff.2 (fun a b hentry => ?_) hown
      obtain ⟨hname, hvalue⟩ := Prod.mk.inj hentry
      exact Prod.ext (parameterName_inj.1 hname).2 hvalue
    rw [List.map_cons, List.map_cons, hkind.stripped_eq hparameters, ih _ hrest]

/-- Networks of the same kinds of layers with the same parameters are the same but for
what passes have left in them. -/
theorem stripped_of_parameters [Zero α] {network other : Network α}
    (hkinds : List.Forall₂ Layer.SameKind network.layers other.layers)
    (h : network.parameters = other.parameters) : network.stripped = other.stripped := by
  have hentries := congrArg Catalog.entries h
  rw [entries_parameters, entries_parameters] at hentries
  exact congrArg Network.mk (stripped_of_namedFrom hkinds 0 hentries)

variable [Zero α] [Add α] [Mul α]

/-! ## What one pass does to the inputs -/

theorem holdsAll_of_forwardThrough {layers results : List (Layer α)} {x y : Matrix α}
    (h : forwardThrough layers x = .ok (y, results)) :
    ∀ layer ∈ results, ∃ x, layer.input? = some x := by
  induction layers generalizing x results with
  | nil =>
    cases h
    exact fun _ hmem => nomatch hmem
  | cons layer rest ih =>
    obtain ⟨⟨output, head⟩, hhead, h⟩ := exists_of_bind_eq_ok h
    obtain ⟨⟨last, tail⟩, htail, h⟩ := exists_of_bind_eq_ok h
    cases h
    rw [List.forall_mem_cons]
    exact ⟨⟨x, Layer.input?_of_forward hhead⟩, ih htail⟩

/-- A forward pass leaves every layer an input. -/
theorem holdsAll_of_forward {network kept : Network α} {x y : Matrix α}
    (h : network.forward x = .ok (.ok y, kept)) : kept.HoldsAll :=
  holdsAll_of_forwardThrough (forwardThrough_of_forward h).2

/-- A backward pass that goes through takes every input. -/
theorem input?_of_backwardThrough {layers results : List (Layer α)} {error inputError : Matrix α}
    (h : backwardThrough layers error = .ok (.ok inputError, results)) :
    ∀ layer ∈ results, layer.input? = none := by
  induction layers generalizing inputError results with
  | nil =>
    cases h
    exact List.forall_mem_nil _
  | cons layer rest ih =>
    obtain ⟨⟨cause | behind, tail⟩, htail, h⟩ := exists_of_bind_eq_ok h
    · cases h
    · obtain ⟨⟨own, head⟩, hhead, h⟩ := exists_of_bind_eq_ok h
      cases h
      rw [List.forall_mem_cons]
      exact ⟨Layer.input?_of_backward hhead, ih htail⟩

/-- A backward pass that is refused has come to a layer without an input. -/
theorem of_backwardThrough_refused {layers results : List (Layer α)} {error : Matrix α}
    {cause : NetworkError} (h : backwardThrough layers error = .ok (.error cause, results)) :
    cause = .noForwardPass ∧ ∃ layer ∈ layers, layer.input? = none := by
  induction layers generalizing cause results with
  | nil => cases h
  | cons layer rest ih =>
    obtain ⟨⟨refusal | behind, tail⟩, htail, h⟩ := exists_of_bind_eq_ok h
    · cases h
      obtain ⟨hcause, other, hmem, hnone⟩ := ih htail
      exact ⟨hcause, other, List.mem_cons_of_mem _ hmem, hnone⟩
    · obtain ⟨⟨own, head⟩, hhead, h⟩ := exists_of_bind_eq_ok h
      cases h
      obtain ⟨hcause, hnone⟩ := Layer.of_backward_refused hhead
      exact ⟨hcause, layer, List.mem_cons_self, hnone⟩

/-- Layers that hold every input do not refuse. -/
theorem backwardThrough_not_refused {layers results : List (Layer α)} {error : Matrix α}
    {cause : NetworkError} (hall : ∀ layer ∈ layers, ∃ x, layer.input? = some x) :
    backwardThrough layers error ≠ .ok (.error cause, results) := by
  intro h
  obtain ⟨_, layer, hmem, hnone⟩ := of_backwardThrough_refused h
  obtain ⟨x, hx⟩ := hall layer hmem
  rw [hnone] at hx
  cases hx

/-- Without any inputs the last layer refuses, and every layer stays as it is. -/
theorem backwardThrough_of_none {layers : List (Layer α)} (hne : layers ≠ [])
    (h : ∀ layer ∈ layers, layer.input? = none) (error : Matrix α) :
    backwardThrough layers error = .ok (.error .noForwardPass, layers) := by
  induction layers with
  | nil => exact absurd rfl hne
  | cons layer rest ih =>
    rw [List.forall_mem_cons] at h
    rw [backwardThrough]
    -- The layers behind are asked first; without any, the layer itself refuses.
    by_cases hrest : rest = []
    · subst hrest
      exact bind_eq_of_ok (Layer.backward_of_none h.1 error)
    · exact bind_eq_of_ok (ih hrest h.2)

/-- A network that holds no inputs refuses every backward pass and stays as it is. -/
theorem HoldsNone.backward_eq {network : Network α} (h : network.HoldsNone)
    (hne : network.layers ≠ []) (error : Matrix α) :
    network.backward error = .ok (.error .noForwardPass, network) := by
  rw [backward, bind_eq_of_ok (backwardThrough_of_none hne h error)]
  rfl

theorem HoldsNone.of_backward {network after : Network α} {error : Matrix α}
    {gradients : Parameters α} (h : network.backward error = .ok (.ok gradients, after)) :
    after.HoldsNone := by
  obtain ⟨⟨cause | inputError, results⟩, hback, h⟩ := exists_of_bind_eq_ok h
  · cases h
  · cases h
    exact input?_of_backwardThrough hback

/-- A backward pass is refused for one reason only, and never where every layer holds an
input. -/
theorem of_backward_refused {network after : Network α} {error : Matrix α}
    {cause : NetworkError} (h : network.backward error = .ok (.error cause, after)) :
    cause = .noForwardPass ∧ network.layers ≠ [] ∧ ¬network.HoldsAll := by
  obtain ⟨⟨refusal | inputError, results⟩, hback, h⟩ := exists_of_bind_eq_ok h
  · cases h
    obtain ⟨hcause, layer, hmem, _⟩ := of_backwardThrough_refused hback
    exact ⟨hcause, List.ne_nil_of_mem hmem, fun hall => backwardThrough_not_refused hall hback⟩
  · cases h

theorem backwardThrough_congr {layers others : List (Layer α)} {error : Matrix α}
    (hstripped : others.map Layer.stripped = layers.map Layer.stripped)
    (hinputs : others.map Layer.input? = layers.map Layer.input?)
    (hall : ∀ layer ∈ layers, ∃ x, layer.input? = some x) :
    backwardThrough others error = backwardThrough layers error := by
  induction layers generalizing others with
  | nil => rw [List.map_eq_nil_iff.1 hinputs]
  | cons layer rest ih =>
    cases others with
    | nil => cases hinputs
    | cons other others =>
      obtain ⟨hhead, htail⟩ := List.cons.inj hstripped
      obtain ⟨hinput, hinputs⟩ := List.cons.inj hinputs
      rw [List.forall_mem_cons] at hall
      obtain ⟨⟨x, hx⟩, hall⟩ := hall
      rw [backwardThrough, backwardThrough, ih htail hinputs hall]
      cases hrest : backwardThrough rest error with
      | error fault => rfl
      | ok result =>
        obtain ⟨cause | behind, results⟩ := result
        · exact absurd hrest (backwardThrough_not_refused hall)
        · change (other.backward behind >>= _) = (layer.backward behind >>= _)
          rw [Layer.backward_congr hhead (hinput.trans hx) hx]

/-- Where all layers hold their inputs, these, the parameters and the error decide what a
backward pass does. -/
theorem backward_congr {network other : Network α} (hstripped : other.stripped = network.stripped)
    (hinputs : other.inputs = network.inputs) (hall : network.HoldsAll) (error : Matrix α) :
    other.backward error = network.backward error := by
  have hlayers : other.layers.map Layer.stripped = network.layers.map Layer.stripped :=
    congrArg Network.layers hstripped
  rw [backward, backward, backwardThrough_congr hlayers hinputs hall]

/-! ## What a session does to the inputs -/

/-- A request is a forward pass that leaves every layer an input, or a backward pass that
takes them all, or it leaves them as they are. -/
theorem Step.inputs_cases {network after : Network α} {request : Request α}
    {response : Response α} (h : network.Step request response after)
    (hheld : network.HoldsAll ∨ network.HoldsNone) :
    (∃ x y, request = .forward x ∧ response = .output (.ok y) ∧
      network.forward x = .ok (.ok y, after)) ∨
    (∃ error gradients, request = .backward error ∧ response = .gradients (.ok gradients) ∧
      after.HoldsNone) ∨
    (response.isPass = false ∧ after.inputs = network.inputs) := by
  cases h with
  | forward h => exact .inl ⟨_, _, rfl, rfl, h⟩
  | backward h => exact .inr (.inl ⟨_, _, rfl, rfl, .of_backward h⟩)
  | refuse h =>
    -- Refused half way, the pass would have taken the inputs of the layers behind.
    obtain ⟨_, hne, hnotAll⟩ := of_backward_refused h
    obtain hall | hnone := hheld
    · exact absurd hall hnotAll
    · rw [hnone.backward_eq hne] at h
      cases h
      exact .inr (.inr ⟨rfl, rfl⟩)
  | load h => exact .inr (.inr ⟨rfl, (installed_of_install h).inputs⟩)
  | keep h => exact .inr (.inr ⟨h, rfl⟩)

/-- The inputs are those that the last forward pass, from `x`, has left on the way. -/
def LeftBy (first : Network α) (events : Events α) (network : Network α) (x : Matrix α) : Prop :=
  ∃ before y later source kept, events = before ++ (.forward x, .output (.ok y)) :: later ∧
    (∀ event ∈ later, event.2.isPass = false) ∧ first.Session before source ∧
    source.forward x = .ok (.ok y, kept) ∧ network.inputs = kept.inputs

theorem LeftBy.holdsAll {first network : Network α} {events : Events α} {x : Matrix α}
    (h : first.LeftBy events network x) : network.HoldsAll := by
  obtain ⟨_, _, _, _, kept, _, _, _, hforward, hinputs⟩ := h
  rw [holdsAll_iff_inputs, hinputs, ← holdsAll_iff_inputs]
  exact holdsAll_of_forward hforward

/-- What is no pass leaves the inputs of the last forward pass where they are. -/
theorem LeftBy.append {first network after : Network α} {events : Events α} {x : Matrix α}
    {event : Request α × Response α} (h : first.LeftBy events network x)
    (hpass : event.2.isPass = false) (hinputs : after.inputs = network.inputs) :
    first.LeftBy (events ++ [event]) after x := by
  obtain ⟨before, y, later, source, kept, rfl, hlater, hsource, hforward, hkept⟩ := h
  refine ⟨before, y, later ++ [event], source, kept, by simp, ?_, hsource, hforward,
    hinputs.trans hkept⟩
  rw [List.forall_mem_append, List.forall_mem_singleton]
  exact ⟨hlater, hpass⟩

theorem held_of_leftBy {first network : Network α} {events : Events α}
    (hleft : ∀ x, Awaiting events x → first.LeftBy events network x)
    (hnone : (∀ x, ¬Awaiting events x) → network.HoldsNone) :
    (∃ x, Awaiting events x) ∧ network.HoldsAll ∨
      (∀ x, ¬Awaiting events x) ∧ network.HoldsNone := by
  by_cases hwaits : ∃ x, Awaiting events x
  · obtain ⟨x, hawaiting⟩ := hwaits
    exact .inl ⟨⟨x, hawaiting⟩, (hleft x hawaiting).holdsAll⟩
  · exact .inr ⟨not_exists.1 hwaits, hnone (not_exists.1 hwaits)⟩

/-- Whatever is asked, the layers hold the inputs of the last forward pass as long as
these wait for a backward pass, and none otherwise. -/
theorem Session.leftBy {first network : Network α} {events : Events α}
    (hfresh : first.HoldsNone) (session : first.Session events network) :
    (∀ x, Awaiting events x → first.LeftBy events network x) ∧
      ((∀ x, ¬Awaiting events x) → network.HoldsNone) := by
  induction session with
  | start => exact ⟨fun x h => absurd h (not_awaiting_nil x), fun _ => hfresh⟩
  | @next events network after request response session h ih =>
    have hheld : network.HoldsAll ∨ network.HoldsNone :=
      (held_of_leftBy ih.1 ih.2).imp And.right And.right
    obtain ⟨x, y, rfl, rfl, hforward⟩ | ⟨error, gradients, rfl, rfl, hnone⟩ | ⟨hpass, hinputs⟩ :=
      (step_of_respond h).inputs_cases hheld
    · refine ⟨fun x' hawaiting => ?_, fun hno => ?_⟩
      · obtain ⟨_, hevent⟩ | ⟨hpass, _⟩ := awaiting_append.1 hawaiting
        · cases hevent
          exact ⟨events, y, [], network, after, rfl, List.forall_mem_nil _, session, hforward, rfl⟩
        · cases hpass
      · exact absurd (awaiting_forward events x y) (hno x)
    · refine ⟨fun x hawaiting => ?_, fun _ => hnone⟩
      obtain ⟨_, hevent⟩ | ⟨hpass, _⟩ := awaiting_append.1 hawaiting
      · cases hevent
      · cases hpass
    · refine ⟨fun x hawaiting => ?_, fun hno => ?_⟩
      · obtain ⟨_, hevent⟩ | ⟨_, hbefore⟩ := awaiting_append.1 hawaiting
        · cases hevent
          cases hpass
        · exact (ih.1 x hbefore).append hpass hinputs
      · have hnone := ih.2 fun x hbefore => hno x (awaiting_append.2 (.inr ⟨hpass, hbefore⟩))
        rwa [holdsNone_iff_inputs, hinputs, ← holdsNone_iff_inputs]

/-- In a session that starts without kept inputs, at every moment every layer holds an
input or none does: every one while a forward pass waits for its backward pass. A
backward pass of any error is refused exactly when none waits, always for this reason,
and the network stays as it is; nor does any other answer but a pass that goes through
change the inputs. While a forward pass waits, the inputs are those that it has left. Then
what a backward pass does depends on the kinds of the layers, the parameters, the inputs
and the error alone, not on recorded gradients. -/
theorem Session.waiting {first network : Network α} {events : Events α}
    (hne : first.layers ≠ []) (hfresh : first.HoldsNone)
    (session : first.Session events network) :
    ((∃ x, Awaiting events x) ∧ network.HoldsAll ∨
      (∀ x, ¬Awaiting events x) ∧ network.HoldsNone) ∧
    (∀ error, (∃ after, network.backward error = .ok (.error .noForwardPass, after)) ↔
      ∀ x, ¬Awaiting events x) ∧
    (∀ error cause after, network.backward error = .ok (.error cause, after) →
      cause = .noForwardPass ∧ after = network) ∧
    (∀ request response after, network.respond request = .ok (response, after) →
      response.isPass = false → after.inputs = network.inputs) ∧
    ∀ x, Awaiting events x → first.LeftBy events network x ∧
      ∀ other : Network α, List.Forall₂ Layer.SameKind other.layers network.layers →
        other.parameters = network.parameters → other.inputs = network.inputs →
        ∀ error, other.backward error = network.backward error := by
  have hlayers : network.layers ≠ [] := by
    have hform := session.form
    intro hnil
    rw [Network.form, Network.form, hnil] at hform
    exact hne (List.map_eq_nil_iff.1 hform.symm)
  obtain ⟨hleft, hnone⟩ := session.leftBy hfresh
  have hstate := held_of_leftBy hleft hnone
  have hheld : network.HoldsAll ∨ network.HoldsNone := hstate.imp And.right And.right
  refine ⟨hstate, fun error => ⟨fun hrefused => ?_, fun hno => ?_⟩,
    fun error cause after h => ?_, fun request response after h hpass => ?_,
    fun x hawaiting => ?_⟩
  · obtain ⟨after, h⟩ := hrefused
    obtain ⟨_, hall⟩ | ⟨hno, _⟩ := hstate
    · exact absurd hall (of_backward_refused h).2.2
    · exact hno
  · obtain ⟨⟨x, hawaiting⟩, _⟩ | ⟨_, hnone⟩ := hstate
    · exact absurd hawaiting (hno x)
    · exact ⟨network, hnone.backward_eq hlayers error⟩
  · obtain ⟨_, _, hnotAll⟩ := of_backward_refused h
    rw [(hheld.resolve_left hnotAll).backward_eq hlayers] at h
    cases h
    exact ⟨rfl, rfl⟩
  · obtain ⟨_, _, _, rfl, _⟩ | ⟨_, _, _, rfl, _⟩ | ⟨_, hinputs⟩ :=
      (step_of_respond h).inputs_cases hheld
    · cases hpass
    · cases hpass
    · exact hinputs
  · have hall := (hleft x hawaiting).holdsAll
    exact ⟨hleft x hawaiting, fun other hkinds hparameters hinputs error =>
      backward_congr (stripped_of_parameters hkinds hparameters) hinputs hall error⟩

/-- A dense layer of one weight under a rectifier. -/
def rectified : Network Float :=
  ⟨[.dense (.ofParts (.row #[2]) (.row #[1])), .ofCurve Activation.relu.curve]⟩

/-- It refuses a backward pass before the first forward pass, but not after it, when both
layers hold an input. -/
theorem Session.waiting_rectified :
    (∃ after, rectified.backward (.row #[1]) = .ok (.error .noForwardPass, after)) ∧
    ∃ y kept, rectified.forward (.row #[3]) = .ok (.ok y, kept) ∧ kept.HoldsAll ∧
      ¬∃ after, kept.backward (.row #[1]) = .ok (.error .noForwardPass, after) := by
  have hne : rectified.layers ≠ [] := List.cons_ne_nil _ _
  have hfresh : rectified.HoldsNone := by
    simp [HoldsNone, rectified, Layer.input?, Layer.ofCurve, Dense.ofParts]
  have hchained : Chained 1 rectified.layers 1 := ⟨1, ⟨rfl, rfl⟩, 1, rfl, rfl⟩
  have hforward : rectified.forward (.row #[3]) =
      .ok (.ok (outputThrough rectified.layers (.row #[3])),
        ⟨keptThrough rectified.layers (.row #[3])⟩) :=
    bind_eq_of_ok (forwardThrough_eq hchained rfl).1
  obtain ⟨-, hrefused, -⟩ := Session.waiting hne hfresh .start
  obtain ⟨hstate, hrefused', -⟩ := Session.waiting hne hfresh (Session.start.forward hforward)
  have hawaiting := awaiting_forward [] (.row #[3]) (outputThrough rectified.layers (.row #[3]))
  refine ⟨(hrefused _).2 not_awaiting_nil, _, _, hforward, ?_,
    fun hafter => (hrefused' _).1 hafter _ hawaiting⟩
  obtain ⟨_, hall⟩ | ⟨hnone, _⟩ := hstate
  · exact hall
  · exact absurd hawaiting (hnone _)

end Network

end DeferredReward
