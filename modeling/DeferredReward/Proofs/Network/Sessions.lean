import DeferredReward.Proofs.Network.Loading
import DeferredReward.Proofs.Network.Passes

/-!
# Sessions with a network

A session is what callers can make of a network: passes in both directions,
predictions, loads and copies in any order, each with the answer it got. `Step` says
what each request can do to the network. Only passes that go through and accepted
loads change it, and neither changes its form.

A forward pass leaves every layer its input, and these wait for a backward pass. What
matters of a session so far is therefore whether the last pass that went through was
a forward one.

Main statements: `step_of_respond`, `Session.form`, `awaiting_append`.
-/

namespace DeferredReward.Network

variable {α : Type}

/-- What can be asked of a network. -/
inductive Request (α : Type) where
  /-- A forward pass of a batch. -/
  | forward (x : Matrix α)
  /-- The output for a batch, without a pass. -/
  | predict (x : Matrix α)
  /-- A backward pass of an error of the output. -/
  | backward (error : Matrix α)
  /-- New parameters. -/
  | load (given : Parameters α)
  /-- The parameters. -/
  | parameters
  /-- A copy of the network. -/
  | copy

/-- What a network answers. -/
inductive Response (α : Type) where
  /-- The output of a forward pass. -/
  | output (answer : Except NetworkError (Matrix α))
  /-- The output for a batch. -/
  | prediction (answer : Except NetworkError (Matrix α))
  /-- The gradients of a backward pass. -/
  | gradients (answer : Except NetworkError (Parameters α))
  /-- Whether the parameters are taken. -/
  | loaded (answer : Except NetworkError Unit)
  /-- The parameters. -/
  | parameters (values : Parameters α)
  /-- The copy. -/
  | copy (network : Network α)

/-- Whether the answer is that of a pass that went through, in one direction or the other. -/
def Response.isPass : Response α → Bool
  | output (.ok _) => true
  | gradients (.ok _) => true
  | _ => false

/-- Requests with their answers, the first one first. -/
abbrev Events (α : Type) := List (Request α × Response α)

/-- The last pass that went through was a forward pass from `x`. -/
def Awaiting (events : Events α) (x : Matrix α) : Prop :=
  ∃ before y later, events = before ++ (.forward x, .output (.ok y)) :: later ∧
    ∀ event ∈ later, event.2.isPass = false

theorem not_awaiting_nil (x : Matrix α) : ¬Awaiting [] x := by
  rintro ⟨before, y, later, heq, _⟩
  exact absurd heq.symm (by simp)

/-- One more event is that forward pass itself, or it is no pass and the inputs of an
earlier one are still waiting. -/
theorem awaiting_append {events : Events α} {event : Request α × Response α} {x : Matrix α} :
    Awaiting (events ++ [event]) x ↔
      (∃ y, event = (.forward x, .output (.ok y))) ∨
        (event.2.isPass = false ∧ Awaiting events x) := by
  constructor
  · rintro ⟨before, y, later, heq, hlater⟩
    rcases List.eq_nil_or_concat later with rfl | ⟨rest, last, rfl⟩
    · obtain ⟨-, hlast⟩ := List.append_inj' heq rfl
      exact .inl ⟨y, List.singleton_inj.1 hlast⟩
    · rw [List.concat_eq_append, ← List.cons_append, ← List.append_assoc] at heq
      obtain ⟨rfl, hlast⟩ := List.append_inj' heq rfl
      obtain rfl := List.singleton_inj.1 hlast
      rw [List.concat_eq_append, List.forall_mem_append, List.forall_mem_singleton] at hlater
      exact .inr ⟨hlater.2, before, y, rest, rfl, hlater.1⟩
  · rintro (⟨y, rfl⟩ | ⟨hevent, before, y, later, rfl, hlater⟩)
    · exact ⟨events, y, [], rfl, fun _ hmem => nomatch hmem⟩
    · refine ⟨before, y, later ++ [event], by simp, ?_⟩
      rw [List.forall_mem_append, List.forall_mem_singleton]
      exact ⟨hlater, hevent⟩

theorem awaiting_forward (events : Events α) (x y : Matrix α) :
    Awaiting (events ++ [(.forward x, .output (.ok y))]) x :=
  awaiting_append.2 (.inl ⟨y, rfl⟩)

variable [Zero α] [Add α] [Mul α]

/-- The request carried out: its answer and the network after it. -/
def respond (network : Network α) : Request α → Except Fault (Response α × Network α)
  | .forward x => do
    let (answer, network) ← network.forward x
    return (.output answer, network)
  | .predict x => do return (.prediction (← network.predict x), network)
  | .backward error => do
    let (answer, network) ← network.backward error
    return (.gradients answer, network)
  | .load given => do
    let (answer, network) ← network.load given
    return (.loaded answer, network)
  | .parameters => return (.parameters network.parameters, network)
  | .copy => return (.copy network, network)

/-- What a request can do: the answers and the networks it can lead to. -/
inductive Step (network : Network α) : Request α → Response α → Network α → Prop where
  /-- A forward pass goes through. -/
  | forward {x y : Matrix α} {kept : Network α} (h : network.forward x = .ok (.ok y, kept)) :
      Step network (.forward x) (.output (.ok y)) kept
  /-- A backward pass goes through. -/
  | backward {error : Matrix α} {gradients : Parameters α} {after : Network α}
      (h : network.backward error = .ok (.ok gradients, after)) :
      Step network (.backward error) (.gradients (.ok gradients)) after
  /-- A backward pass is refused. -/
  | refuse {error : Matrix α} {cause : NetworkError} {after : Network α}
      (h : network.backward error = .ok (.error cause, after)) :
      Step network (.backward error) (.gradients (.error cause)) after
  /-- Parameters are taken. -/
  | load {given : Parameters α} {result : Network α}
      (h : network.install given = .ok (.ok result)) :
      Step network (.load given) (.loaded (.ok ())) result
  /-- Every other request leaves the network as it is. -/
  | keep {request : Request α} {response : Response α} (h : response.isPass = false) :
      Step network request response network

/-- A refused forward pass leaves the network as it is. -/
theorem eq_of_forward_refused {network after : Network α} {x : Matrix α} {cause : NetworkError}
    (h : network.forward x = .ok (.error cause, after)) : after = network := by
  unfold forward at h
  split at h
  · cases h
    rfl
  · obtain ⟨_, _, h⟩ := exists_of_bind_eq_ok h
    cases h

/-- A request with an answer does one of the things it can do. -/
theorem step_of_respond {network after : Network α} {request : Request α} {response : Response α}
    (h : network.respond request = .ok (response, after)) :
    network.Step request response after := by
  cases request with
  | forward x =>
    obtain ⟨⟨answer, kept⟩, hforward, h⟩ := exists_of_bind_eq_ok h
    cases h
    cases answer with
    | ok y => exact .forward hforward
    | error cause =>
      obtain rfl := eq_of_forward_refused hforward
      exact .keep rfl
  | predict x =>
    obtain ⟨answer, _, h⟩ := exists_of_bind_eq_ok h
    cases h
    exact .keep rfl
  | backward error =>
    obtain ⟨⟨answer, kept⟩, hbackward, h⟩ := exists_of_bind_eq_ok h
    cases h
    cases answer with
    | ok gradients => exact .backward hbackward
    | error cause => exact .refuse hbackward
  | load given =>
    obtain ⟨⟨answer, result⟩, hload, h⟩ := exists_of_bind_eq_ok h
    cases h
    obtain ⟨taken, hinstall, hsame⟩ := load_eq network given
    rw [hsame] at hload
    cases taken with
    | ok result =>
      cases hload
      exact .load hinstall
    | error cause =>
      cases hload
      exact .keep rfl
  | parameters =>
    cases h
    exact .keep rfl
  | copy =>
    cases h
    exact .keep rfl

/-- No request changes the form. -/
theorem Step.form {network after : Network α} {request : Request α} {response : Response α}
    (h : network.Step request response after) : after.form = network.form := by
  cases h with
  | forward h => exact form_of_stripped (stripped_of_forward h)
  | backward h => exact form_of_stripped (stripped_of_backward h)
  | refuse h => exact form_of_stripped (stripped_of_backward h)
  | load h => exact form_of_install h
  | keep h => rfl

/-- The events that lead from one network to another. Each request was answered; a copy
is the network again, so it makes no difference which of the two goes on. -/
inductive Session (first : Network α) : Events α → Network α → Prop where
  /-- Nothing has been asked yet. -/
  | start : Session first [] first
  /-- One more request. -/
  | next {events : Events α} {network after : Network α} {request : Request α}
      {response : Response α} (session : Session first events network)
      (h : network.respond request = .ok (response, after)) :
      Session first (events ++ [(request, response)]) after

/-- A forward pass carries a session on. -/
theorem Session.forward {first network kept : Network α} {events : Events α} {x y : Matrix α}
    (session : first.Session events network) (h : network.forward x = .ok (.ok y, kept)) :
    first.Session (events ++ [(.forward x, .output (.ok y))]) kept :=
  session.next (bind_eq_of_ok h)

/-- No session changes the form. -/
theorem Session.form {first network : Network α} {events : Events α}
    (session : first.Session events network) : network.form = first.form := by
  induction session with
  | start => rfl
  | next _ h ih => exact (step_of_respond h).form.trans ih

end DeferredReward.Network
