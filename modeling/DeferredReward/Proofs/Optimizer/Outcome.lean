import DeferredReward.Proofs.Optimizer.Scalar
import DeferredReward.Proofs.Optimizer.Turns

/-!
# What comes of a step

A step can be refused, it can have a fault, or it goes through; which of these it
does is decided by the names and shapes of its parameters and gradients, and by
those of the parameters that earlier steps have moved. An optimizer remembers the
shape that a name had when it was first moved, and no later step gets over another
one, whether the gradients of that shape can be repeated to the old one or not.

Between two steps the parameters may be replaced by others. A session is a list of
steps that returned, refused ones among them, which leave no trace.

Main statement: `step_outcome`.
-/

namespace DeferredReward.Optimizer

variable {α : Type} [Analysis α]

/-- A step that returned. -/
structure Call (α : Type) where
  /-- The parameters that it was given. -/
  parameters : Parameters α
  /-- The gradients that it was given. -/
  gradients : Parameters α
  /-- The refusal, or the parameters that it gave back. -/
  answer : Except NetworkError (Parameters α)

/-- The call as an accepted step, if it was not refused. -/
def Call.move? (call : Call α) : Option (Move α) :=
  match call.answer with
  | .ok moved => some ⟨call.parameters, call.gradients, moved⟩
  | .error _ => none

/-- The call was accepted with a matrix of that shape under the name. -/
def Call.Gave (call : Call α) (name : String) (shape : Shape) : Prop :=
  (∃ moved, call.answer = .ok moved) ∧ (call.parameters.find? name).map Matrix.shape = some shape

/-- The calls that lead from one optimizer to another. -/
inductive Session : Optimizer α → List (Call α) → Optimizer α → Prop where
  /-- No call. -/
  | done (o : Optimizer α) : Session o [] o
  /-- A call before the others. -/
  | call {o next last : Optimizer α} {call : Call α} {calls : List (Call α)}
      (h : o.step call.parameters call.gradients = .ok (call.answer, next))
      (session : Session next calls last) : Session o (call :: calls) last

/-- The moments under one of the names are of another shape than the parameter. -/
def Reshaped (o : Optimizer α) (parameters : Parameters α) : Prop :=
  ∃ name p m, parameters.find? name = some p ∧ o.moments.find? name = some m ∧ m.shape ≠ p.shape

variable {first o last : Optimizer α} {calls : List (Call α)} {moves : List (Move α)}
  {name : String} {shape : Shape}

/-- A refused call leaves the optimizer as it was, so a session is a course of the others. -/
theorem Session.course (session : Session first calls last) :
    Course first (calls.filterMap Call.move?) last := by
  induction session with
  | done o => exact .done o
  | @call o next last call calls h _ ih =>
    cases hanswer : call.answer with
    | ok moved =>
      have hmove : call.move? = some ⟨call.parameters, call.gradients, moved⟩ := by
        rw [Call.move?, hanswer]
      rw [List.filterMap_cons_some hmove]
      exact .step (hanswer ▸ h) ih
    | error cause =>
      have hmove : call.move? = none := by rw [Call.move?, hanswer]
      rw [hanswer] at h
      obtain ⟨_, _, _, hsame⟩ | ⟨_, _, _, haccepted, _⟩ := step_cases h
      · rw [List.filterMap_cons_none hmove, ← hsame]
        exact ih
      · cases haccepted

/-- A step keeps the shapes that are remembered and adds those of its parameters. -/
theorem Accepts.shape?_moments_iff {next : Optimizer α} {move : Move α}
    (h : o.Accepts move next) :
    (next.moments.find? name).map Matrix.shape = some shape ↔
      (o.moments.find? name).map Matrix.shape = some shape ∨
        (move.parameters.find? name).map Matrix.shape = some shape := by
  cases hname : move.parameters.find? name with
  | none => simp [h.find?_moments_of_none hname]
  | some p =>
    obtain ⟨hbefore, m, hm, hshape⟩ := h.shape_moments hname
    rw [hm, Option.map_some, Option.map_some, hshape]
    refine ⟨.inr, fun hcases => hcases.elim (fun hkept => ?_) id⟩
    obtain ⟨m', hm', hshape'⟩ := Option.map_eq_some_iff.1 hkept
    rw [momentsOf, hm', Option.getD_some] at hbefore
    rw [← hbefore, hshape']

/-- The shapes that an optimizer remembers are those of the parameters it has moved. -/
theorem Course.shape?_moments_iff (course : Course first moves last) :
    (last.moments.find? name).map Matrix.shape = some shape ↔
      (first.moments.find? name).map Matrix.shape = some shape ∨
        ∃ move ∈ moves, (move.parameters.find? name).map Matrix.shape = some shape := by
  induction course with
  | done o => simp
  | step h _ ih => rw [ih, (accepts_of_step h).shape?_moments_iff, or_assoc, List.exists_mem_cons_iff]

/-- After a session that started without moments there are moments under a name, of
some shape, exactly when one of its accepted calls gave the name that shape. -/
theorem Session.shape?_moments_iff (hfresh : first.Fresh) (session : Session first calls last) :
    (last.moments.find? name).map Matrix.shape = some shape ↔
      ∃ call ∈ calls, call.Gave name shape := by
  have hnone : (first.moments.find? name).map Matrix.shape = none := by
    rw [hfresh.moments]
    rfl
  rw [session.course.shape?_moments_iff, hnone]
  constructor
  · rintro (h | ⟨move, hmove, hshape⟩)
    · cases h
    · obtain ⟨call, hcall, heq⟩ := List.mem_filterMap.1 hmove
      refine ⟨call, hcall, ?_⟩
      unfold Call.move? at heq
      split at heq
      · rename_i moved hanswer
        cases heq
        exact ⟨⟨moved, hanswer⟩, hshape⟩
      · cases heq
  · rintro ⟨call, hcall, ⟨moved, hanswer⟩, hshape⟩
    have hmove : call.move? = some ⟨call.parameters, call.gradients, moved⟩ := by
      rw [Call.move?, hanswer]
    exact .inr ⟨_, List.mem_filterMap.2 ⟨call, hcall, hmove⟩, hshape⟩

/-- The check of the shapes finds a parameter exactly when one has moments of
another shape; where there are no moments yet, any shape is right. -/
theorem reshaped?_ne_none_iff (o : Optimizer α) (parameters : Parameters α) :
    o.reshaped? parameters ≠ none ↔ o.Reshaped parameters := by
  rw [ne_eq, reshaped?_eq_none_iff, not_forall]
  constructor
  · rintro ⟨⟨name, shape⟩, hoffends⟩
    obtain ⟨hmem, hother⟩ := Classical.not_imp.1 hoffends
    obtain ⟨p, hp, rfl⟩ :=
      Option.map_eq_some_iff.1 ((parameters.shape?_eq_some_iff name shape).2 hmem)
    cases hm : o.moments.find? name with
    | none =>
      rw [momentsOf, hm] at hother
      exact absurd (Matrix.shape_zeros _) hother
    | some m =>
      rw [momentsOf, hm] at hother
      exact ⟨name, p, m, hp, hm, hother⟩
  · rintro ⟨name, p, m, hp, hm, hother⟩
    refine ⟨(name, p.shape), fun h => hother ?_⟩
    have hshape := h ((parameters.shape?_eq_some_iff name _).1 (by rw [hp, Option.map_some]))
    rwa [momentsOf, hm] at hshape

/-- A step is refused exactly for gradients that do not suit its parameters. -/
theorem step_refuses_iff (o : Optimizer α) (parameters gradients : Parameters α) :
    (∃ cause next, o.step parameters gradients = .ok (.error cause, next)) ↔
      ¬parameters.SuitedBy gradients := by
  rw [← Parameters.mismatch?_eq_none_iff_suitedBy]
  constructor
  · rintro ⟨cause, next, hstep⟩ hsuited
    obtain ⟨_, hmismatch, _⟩ | ⟨_, _, _, haccepted, _⟩ := step_cases hstep
    · rw [hsuited] at hmismatch
      cases hmismatch
    · cases haccepted
  · intro hunsuited
    obtain ⟨name, hname⟩ := Option.ne_none_iff_exists'.1 hunsuited
    exact ⟨.unsuitableParameter name, o, by rw [step, hname]⟩

/-- A refusal names the first parameter that is not suited and changes nothing. -/
theorem refusal_of_step {next : Optimizer α} {parameters gradients : Parameters α}
    {cause : NetworkError} (h : o.step parameters gradients = .ok (.error cause, next)) :
    next = o ∧
      ∃ name, parameters.FirstUnsuited gradients name ∧ cause = .unsuitableParameter name := by
  obtain ⟨name, hmismatch, hanswer, hsame⟩ | ⟨_, _, _, haccepted, _⟩ := step_cases h
  · exact ⟨hsame, name, (Parameters.mismatch?_eq_some_iff _ _ _).1 hmismatch,
      Except.error.inj hanswer⟩
  · cases haccepted

/-- A name with moments of another shape is a fault. -/
theorem step_faults {parameters gradients : Parameters α} (hsuited : parameters.SuitedBy gradients)
    (hreshaped : o.Reshaped parameters) : ∃ fault, o.step parameters gradients = .error fault := by
  rw [← Parameters.mismatch?_eq_none_iff_suitedBy] at hsuited
  rw [← reshaped?_ne_none_iff] at hreshaped
  cases hstep : o.step parameters gradients with
  | error fault => exact ⟨fault, rfl⟩
  | ok result =>
    -- A step with a result has refused its gradients or found all shapes right.
    obtain ⟨_, hmismatch, _⟩ | ⟨_, _, hunreshaped, _⟩ := step_cases hstep
    · rw [hsuited] at hmismatch
      cases hmismatch
    · exact absurd hunreshaped hreshaped

/-- Any other step goes through as long as it can be counted. -/
theorem step_succeeds {parameters gradients : Parameters α}
    (hsuited : parameters.SuitedBy gradients) (hreshaped : ¬o.Reshaped parameters)
    (hcount : o.steps.toInt < 2 ^ 31 - 1) :
    ∃ moved next, o.step parameters gradients = .ok (.ok moved, next) ∧
      next.steps.toInt = o.steps.toInt + 1 ∧ moved.layout = parameters.layout ∧
      ∀ name, parameters.find? name = none →
        next.moments.find? name = o.moments.find? name := by
  rw [← Parameters.mismatch?_eq_none_iff_suitedBy] at hsuited
  rw [← reshaped?_ne_none_iff, not_not] at hreshaped
  have hsteps : o.steps ≠ Int32.maxValue := by
    intro heq
    rw [heq] at hcount
    exact absurd hcount (by decide)
  exact ⟨_, _, step_eq_ok hsuited hsteps hreshaped, toInt_steps_after hsteps _ _,
    layout_moved o _ _, fun _ hname => find?_moments_after_of_none o _ hname⟩

/-- A fault has no other cause than these: moments of another shape, or a count that
cannot go on. -/
theorem fault_of_step {parameters gradients : Parameters α} {fault : Fault}
    (h : o.step parameters gradients = .error fault) :
    parameters.SuitedBy gradients ∧ (o.Reshaped parameters ∨ o.steps.toInt = 2 ^ 31 - 1) := by
  have hsuited : parameters.SuitedBy gradients := by
    by_contra hunsuited
    obtain ⟨_, _, hrefused⟩ := (step_refuses_iff o parameters gradients).2 hunsuited
    rw [h] at hrefused
    cases hrefused
  refine ⟨hsuited, ?_⟩
  by_contra hneither
  obtain ⟨hreshaped, hlast⟩ := not_or.1 hneither
  have hlimit := o.steps.toInt_lt
  obtain ⟨_, _, hsucceeds, _⟩ := step_succeeds hsuited hreshaped (by omega)
  rw [h] at hsucceeds
  cases hsucceeds

/-- After a session that started without moments, parameters are in the way of a step
exactly when an accepted call gave one of their names another shape. -/
theorem Session.reshaped_iff (hfresh : first.Fresh) (session : Session first calls last)
    (parameters : Parameters α) :
    last.Reshaped parameters ↔
      ∃ call ∈ calls, ∃ name shape, call.Gave name shape ∧
        ∃ p, parameters.find? name = some p ∧ shape ≠ p.shape := by
  constructor
  · rintro ⟨name, p, m, hp, hm, hother⟩
    have hshape : (last.moments.find? name).map Matrix.shape = some m.shape := by
      rw [hm, Option.map_some]
    obtain ⟨call, hcall, hgave⟩ := (session.shape?_moments_iff hfresh).1 hshape
    exact ⟨call, hcall, name, m.shape, hgave, p, hp, hother⟩
  · rintro ⟨call, hcall, name, shape, hgave, p, hp, hother⟩
    have hshape := (session.shape?_moments_iff hfresh).2 ⟨call, hcall, hgave⟩
    obtain ⟨m, hm, rfl⟩ := Option.map_eq_some_iff.1 hshape
    exact ⟨name, p, m, hp, hm, hother⟩

/-- Whatever calls have returned since an optimizer was made and whatever parameters
and gradients come next, the step refuses them exactly when there is not for every
parameter a gradient of its name and shape. It then names the first of those
parameters and leaves the optimizer as it is. Otherwise, as long as steps can be
counted, it has a fault exactly when one of the names has moments of another shape,
which it has when an accepted call gave it another shape. And otherwise it goes
through: it is counted, the parameters keep names, order and shapes, and names that
are not among them keep their moments. In place, with one parameter after the other,
the step comes to the same end; a refusal leaves the parameters as they are. -/
theorem step_outcome (hfresh : first.Fresh) (session : Session first calls o)
    (parameters gradients : Parameters α) :
    ((∃ cause next, o.step parameters gradients = .ok (.error cause, next)) ↔
      ¬parameters.SuitedBy gradients) ∧
    (∀ cause next, o.step parameters gradients = .ok (.error cause, next) →
      next = o ∧
        ∃ name, parameters.FirstUnsuited gradients name ∧ cause = .unsuitableParameter name) ∧
    (parameters.SuitedBy gradients → o.Reshaped parameters →
      ∃ fault, o.step parameters gradients = .error fault) ∧
    (∀ fault, o.step parameters gradients = .error fault →
      parameters.SuitedBy gradients ∧ (o.Reshaped parameters ∨ o.steps.toInt = 2 ^ 31 - 1)) ∧
    (parameters.SuitedBy gradients → ¬o.Reshaped parameters → o.steps.toInt < 2 ^ 31 - 1 →
      ∃ moved next, o.step parameters gradients = .ok (.ok moved, next) ∧
        next.steps.toInt = o.steps.toInt + 1 ∧ moved.layout = parameters.layout ∧
        ∀ name, parameters.find? name = none →
          next.moments.find? name = o.moments.find? name) ∧
    (o.Reshaped parameters ↔
      ∃ call ∈ calls, ∃ name shape, call.Gave name shape ∧
        ∃ p, parameters.find? name = some p ∧ shape ≠ p.shape) ∧
    (((∃ fault, o.performed parameters gradients = .error fault) ∧
        ∃ fault, o.step parameters gradients = .error fault) ∨
      ∃ result, o.step parameters gradients = .ok result ∧
        o.performed parameters gradients = .ok (seen parameters result)) :=
  ⟨step_refuses_iff o parameters gradients, fun _ _ => refusal_of_step, step_faults,
    fun _ => fault_of_step, step_succeeds, session.reshaped_iff hfresh parameters,
    performed_eq o parameters gradients⟩

/-- A single weight, as parameter or as gradient. -/
def loneWeight : Parameters Float := .ofList [("w", .row #[2.0])]

/-- After a step with a row of two weights, a single weight under their name is a
fault, though its gradient can be repeated to the row. -/
theorem step_outcome_loneWeight :
    ∃ moved next, (ofRate (0.1 : Float)).step weights weights = .ok (.ok moved, next) ∧
      Matrix.joinShape? ⟨1, 2⟩ ⟨1, 1⟩ = some ⟨1, 2⟩ ∧
      (∃ fault, next.step loneWeight loneWeight = .error fault) ∧
      ∃ fault, next.performed loneWeight loneWeight = .error fault := by
  have hfresh : (ofRate (0.1 : Float)).Fresh := ⟨rfl, rfl⟩
  have hcount : (ofRate (0.1 : Float)).steps ≠ Int32.maxValue := by decide
  have hlayout : weights.layout = weights.layout := rfl
  have hfirst := step_of_layout hlayout hcount (reshaped?_of_empty hfresh.moments weights)
  have session : Session (ofRate (0.1 : Float)) [⟨weights, weights, .ok _⟩] _ :=
    .call hfirst (.done _)
  obtain ⟨-, -, hfaults, -, -, hreshaped, hinPlace⟩ :=
    step_outcome hfresh session loneWeight loneWeight
  have hsuited : loneWeight.SuitedBy loneWeight :=
    (Parameters.mismatch?_eq_none_iff_suitedBy _ _).1 (Parameters.mismatch?_of_layout rfl)
  have hother := hreshaped.2 ⟨_, List.mem_singleton_self _, "w", ⟨1, 2⟩, ⟨⟨_, rfl⟩, rfl⟩,
    .row #[2.0], rfl, by decide⟩
  obtain ⟨fault, hfault⟩ := hfaults hsuited hother
  refine ⟨_, _, hfirst, rfl, ⟨fault, hfault⟩, ?_⟩
  rcases hinPlace with ⟨hperformed, _⟩ | ⟨_, hresult, _⟩
  · exact hperformed
  · rw [hfault] at hresult
    cases hresult

end DeferredReward.Optimizer
