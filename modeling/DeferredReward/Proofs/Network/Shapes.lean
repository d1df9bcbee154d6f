import DeferredReward.Proofs.Network.Drawn
import DeferredReward.Proofs.Network.Waiting
import DeferredReward.Proofs.Optimizer.Outcome

/-!
# The shapes in a session with a predictor

A predictor stays one whatever is asked of it, so its passes never meet matrices that
do not fit: it predicts and passes forward one output for each row of a batch of its
width, and refuses the other batches. While a forward pass waits, each layer holds an
input of the shape it maps from. Every error with one number for each output then passes
back, and the gradients are those that an optimizer wants to step with: they are listed
as the parameters are, under the same names with the same shapes.

Main statements: `primed_of_leftBy`, `IsPredictor.backward_of_awaiting`, `predictor_sound`.
-/

namespace DeferredReward

namespace Optimizer

variable {α : Type} [Analysis α] {first o : Optimizer α} {calls : List (Call α)}
  {parameters : Parameters α}

/-- Steps with parameters of one layout leave moments that fit every further step with
such parameters. -/
theorem Session.not_reshaped (hfresh : first.Fresh) (session : Session first calls o)
    (hcalls : ∀ call ∈ calls, call.parameters.layout = parameters.layout) :
    ¬o.Reshaped parameters := by
  intro hreshaped
  obtain ⟨call, hcall, name, shape, ⟨_, hgave⟩, p, hp, hother⟩ :=
    (session.reshaped_iff hfresh parameters).1 hreshaped
  have hshape : (parameters.find? name).map Matrix.shape = some shape := by
    rw [parameters.shape?_eq_some_iff, ← hcalls call hcall, ← call.parameters.shape?_eq_some_iff]
    exact hgave
  rw [hp] at hshape
  exact hother (Option.some.inj hshape).symm

end Optimizer

namespace Network

section Passes

variable {α : Type} {rows width outputs : ℕ}

/-- The forms of the layers and the inputs they hold tell whether they are primed. -/
theorem primed_congr {layers others : List (Layer α)} {inputs : ℕ}
    (hforms : layers.map Layer.form = others.map Layer.form)
    (hinputs : layers.map Layer.input? = others.map Layer.input?)
    (h : Primed rows inputs layers outputs) : Primed rows inputs others outputs := by
  induction layers generalizing others inputs with
  | nil =>
    rw [List.map_eq_nil_iff.1 hforms.symm]
    exact h
  | cons layer rest ih =>
    cases others with
    | nil => cases hforms
    | cons other others =>
      obtain ⟨hform, hforms⟩ := List.cons.inj hforms
      obtain ⟨hinput, hinputs⟩ := List.cons.inj hinputs
      obtain ⟨between, hmaps, ⟨x, hx, hshape⟩, hrest⟩ := h
      exact ⟨between, Layer.maps_of_form hform hmaps, ⟨x, hinput ▸ hx, hshape⟩,
        ih hforms hinputs hrest⟩

variable [Zero α] [Add α] [Mul α] {first network : Network α} {events : Events α}

theorem IsPredictor.cols_of_forward (h : network.IsPredictor width) {kept : Network α}
    {x y : Matrix α} (hforward : network.forward x = .ok (.ok y, kept)) : x.cols = width := by
  by_contra hcols
  have haccepted := (forwardThrough_of_forward hforward).1
  rw [h.inputError?_eq, if_neg (Ne.symm hcols)] at haccepted
  cases haccepted

/-- A forward pass has left a predictor what every error of its output needs. -/
theorem primed_of_leftBy (hpredictor : first.IsPredictor width)
    (session : first.Session events network) {x : Matrix α}
    (hleft : first.LeftBy events network x) : Primed x.rows width network.layers 1 := by
  obtain ⟨before, y, later, source, kept, rfl, _, hsource, hforward, hinputs⟩ := hleft
  have hthere := hpredictor.of_form hsource.form
  obtain ⟨hpass, hprimed⟩ := hthere.forward_eq (hthere.cols_of_forward hforward)
  rw [hforward] at hpass
  obtain rfl : kept = ⟨keptThrough source.layers x⟩ := congrArg Prod.snd (Except.ok.inj hpass)
  refine primed_congr ?_ hinputs.symm hprimed
  exact (hsource.forward hforward).form.trans session.form.symm

/-- While a forward pass waits, every error of the shape of its output passes back. -/
theorem IsPredictor.backward_of_awaiting (hpredictor : first.IsPredictor width)
    (hfresh : first.HoldsNone) (session : first.Session events network) {x error : Matrix α}
    (hawaiting : Awaiting events x) (herror : error.shape = ⟨x.rows, 1⟩) :
    ∃ gradients after, network.backward error = .ok (.ok gradients, after) ∧
      gradients.layout = network.parameters.layout ∧ after.parameters = network.parameters := by
  have hprimed := primed_of_leftBy hpredictor session ((session.leftBy hfresh).1 x hawaiting)
  obtain ⟨gradients, after, hbackward, hlayout⟩ := backward_of_primed hprimed herror
  exact ⟨gradients, after, hbackward, hlayout,
    parameters_of_stripped (stripped_of_backward hbackward)⟩

end Passes

variable {α : Type} [Analysis α]

/-- Drawn layers have had no pass. -/
theorem holdsNone_drawLayers (hidden head : Pointwise α) (inputs : ℕ) (hiddenSizes : List ℕ)
    (g : Generator) :
    ∀ layer ∈ (drawLayers hidden head inputs hiddenSizes g).1, layer.input? = none := by
  induction hiddenSizes generalizing inputs g with
  | nil =>
    intro layer hmem
    simp only [drawLayers, List.mem_cons, List.not_mem_nil, or_false] at hmem
    rcases hmem with rfl | rfl <;> rfl
  | cons size rest ih =>
    intro layer hmem
    simp only [drawLayers, List.mem_cons] at hmem
    rcases hmem with rfl | rfl | hmem
    · rfl
    · rfl
    · exact ih size _ layer hmem

/-- For every number of features, all hidden sizes and every generator, in every session
with the drawn predictor: it tells its number of features; it predicts and passes
forward one output for each row of a batch of that width, the same in both ways, and
refuses the batches of every other width. While a forward pass waits, every error of the
shape of its output passes back to gradients with the names, the order and the shapes of
the parameters. No optimizer refuses to step with them, and one that has only stepped
with parameters of this layout so far goes through as long as it can count. -/
theorem predictor_sound (inputs : ℕ) (hiddenSizes : List ℕ) (activation : Activation)
    (g : Generator) {events : Events α} {network : Network α}
    (session : (drawPredictor inputs hiddenSizes activation g).1.Session events network) :
    network.inputSize? = some inputs ∧
    (∀ x : Matrix α, x.cols = inputs → ∃ y kept, y.shape = ⟨x.rows, 1⟩ ∧
      network.predict x = .ok (.ok y) ∧ network.forward x = .ok (.ok y, kept)) ∧
    (∀ x : Matrix α, x.cols ≠ inputs →
      network.predict x = .ok (.error (.inputWidth inputs x.cols)) ∧
      network.forward x = .ok (.error (.inputWidth inputs x.cols), network)) ∧
    ∀ x error : Matrix α, Awaiting events x → error.shape = ⟨x.rows, 1⟩ →
      ∃ gradients after, network.backward error = .ok (.ok gradients, after) ∧
        gradients.layout = network.parameters.layout ∧ after.parameters = network.parameters ∧
        (∀ (o next : Optimizer α) cause,
          o.step network.parameters gradients ≠ .ok (.error cause, next)) ∧
        ∀ (start o : Optimizer α) calls, start.Fresh → start.Session calls o →
          (∀ call ∈ calls, call.parameters.layout = network.parameters.layout) →
          o.steps.toInt < 2 ^ 31 - 1 →
          ∃ moved next, o.step network.parameters gradients = .ok (.ok moved, next) := by
  have hdrawn := isPredictor_drawPredictor (α := α) inputs hiddenSizes activation g
  have hfresh : (drawPredictor (α := α) inputs hiddenSizes activation g).1.HoldsNone :=
    holdsNone_drawLayers _ _ inputs hiddenSizes g
  have hpredictor : network.IsPredictor inputs := hdrawn.of_form session.form
  refine ⟨hpredictor.inputSize, fun x hx => ?_, fun x hx => ⟨hpredictor.predict_eq_error hx, ?_⟩,
    fun x error hawaiting herror => ?_⟩
  · obtain ⟨hpredict, hshape⟩ := hpredictor.predict_eq hx
    exact ⟨_, _, hshape, hpredict, (hpredictor.forward_eq hx).1⟩
  · rw [forward, hpredictor.inputError?_eq, if_neg (Ne.symm hx)]
  · obtain ⟨gradients, after, hbackward, hlayout, hkept⟩ :=
      hdrawn.backward_of_awaiting hfresh session hawaiting herror
    have hsuited := Parameters.suitedBy_of_layout hlayout.symm
    refine ⟨gradients, after, hbackward, hlayout, hkept, fun o next cause hrefused => ?_,
      fun start o calls hstart hsteps hcalls hcount => ?_⟩
    · exact (o.step_refuses_iff _ _).1 ⟨cause, next, hrefused⟩ hsuited
    · obtain ⟨moved, next, hstep, _⟩ :=
        Optimizer.step_succeeds hsuited (hsteps.not_reshaped hstart hcalls) hcount
      exact ⟨moved, next, hstep⟩

/-- Two observations. -/
def observations : Matrix Float := ⟨2, 2, #[1, 2, 3, 4], rfl⟩

/-- A predictor with a hidden layer of no units passes two observations forward and an
error of its two outputs back, and the first step with the gradients goes through. -/
theorem predictor_sound_hollow :
    ∃ y kept gradients after moved next,
      (drawPredictor 2 [0] .relu (.ofSeed 7)).1.forward observations = .ok (.ok y, kept) ∧
      y.shape = ⟨2, 1⟩ ∧ kept.backward (.column #[1, -1]) = .ok (.ok gradients, after) ∧
      gradients.layout = kept.parameters.layout ∧
      (Optimizer.ofRate 0.5).step kept.parameters gradients = .ok (.ok moved, next) := by
  obtain ⟨-, hpasses, -⟩ := predictor_sound (α := Float) 2 [0] .relu (.ofSeed 7) .start
  obtain ⟨y, kept, hshape, -, hforward⟩ := hpasses observations rfl
  obtain ⟨-, -, -, hbackward⟩ :=
    predictor_sound 2 [0] .relu (.ofSeed 7) (Session.start.forward hforward)
  obtain ⟨gradients, after, hgradients, hlayout, -, -, hstep⟩ :=
    hbackward observations (.column #[1, -1]) (awaiting_forward [] _ _) rfl
  obtain ⟨moved, next, hmoved⟩ := hstep (Optimizer.ofRate 0.5) (Optimizer.ofRate 0.5) []
    ⟨rfl, rfl⟩ (.done _) (List.forall_mem_nil _) (by decide)
  exact ⟨y, kept, gradients, after, moved, next, hforward, hshape, hgradients, hlayout, hmoved⟩

end Network

end DeferredReward
