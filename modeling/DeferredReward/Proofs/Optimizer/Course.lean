import DeferredReward.Proofs.Optimizer.Elements

/-!
# Courses of an optimizer

A course is what callers can make of an optimizer: accepted steps, one after the
other, each with the parameters and gradients that it was given. Between two
steps the caller may change every value; a name may be there in some steps and
missing in others, but no step is accepted that gives it another shape than the
steps before.

Main statements: `Course.split`, `Course.pairwise_shape`, `Course.toInt_steps`.
-/

namespace DeferredReward.Optimizer

variable {α : Type} [Analysis α]

/-- An accepted step. -/
structure Move (α : Type) where
  /-- The parameters that it was given. -/
  parameters : Parameters α
  /-- The gradients that it was given. -/
  gradients : Parameters α
  /-- The parameters that it gave back. -/
  moved : Parameters α

/-- The accepted steps that lead from one optimizer to another. -/
inductive Course : Optimizer α → List (Move α) → Optimizer α → Prop where
  /-- No step. -/
  | done (o : Optimizer α) : Course o [] o
  /-- A step before the others. -/
  | step {o next last : Optimizer α} {move : Move α} {moves : List (Move α)}
      (h : o.step move.parameters move.gradients = .ok (.ok move.moved, next))
      (course : Course next moves last) : Course o (move :: moves) last

/-- What an accepted step shows. -/
structure Accepts (o : Optimizer α) (move : Move α) (next : Optimizer α) : Prop where
  /-- There was a gradient for every parameter. -/
  suited : move.parameters.mismatch? move.gradients = none
  /-- One more step could be counted. -/
  countable : o.steps ≠ Int32.maxValue
  /-- The moments had the shapes of the parameters. -/
  unreshaped : o.reshaped? move.parameters = none
  moved : move.moved = o.moved move.parameters move.gradients
  next : next = o.after move.parameters move.gradients

theorem accepts_of_step {o next : Optimizer α} {move : Move α}
    (h : o.step move.parameters move.gradients = .ok (.ok move.moved, next)) :
    o.Accepts move next := by
  obtain ⟨_, _, hrefused, _⟩ | ⟨hsuited, hcountable, hunreshaped, hmoved, hnext⟩ := step_cases h
  · cases hrefused
  · exact ⟨hsuited, hcountable, hunreshaped, Except.ok.inj hmoved, hnext⟩

namespace Accepts

variable {o next : Optimizer α} {move : Move α} {name : String}

/-- A name that the step does not mention keeps its moments. -/
theorem find?_moments_of_none (h : o.Accepts move next)
    (hname : move.parameters.find? name = none) :
    next.moments.find? name = o.moments.find? name := by
  rw [h.next]
  exact find?_moments_after_of_none o _ hname

/-- A name that the step mentions has moments of its shape before and after. -/
theorem shape_moments (h : o.Accepts move next) {p : Matrix α}
    (hp : move.parameters.find? name = some p) :
    (o.momentsOf name p.shape).shape = p.shape ∧
      ∃ m, next.moments.find? name = some m ∧ m.shape = p.shape := by
  have hbefore := shape_momentsOf h.unreshaped hp
  have hfresh := (find?_moments_after o move.gradients hp).trans (find?_fresh o move.gradients hp)
  rw [← h.next] at hfresh
  exact ⟨hbefore, _, hfresh, hbefore⟩

end Accepts

namespace Course

variable {first last : Optimizer α} {moves before later : List (Move α)} {move : Move α}
  {name : String}

/-- A course is taken apart at each of its steps. -/
theorem split (course : Course first (before ++ move :: later) last) :
    ∃ o next, Course first before o ∧
      o.step move.parameters move.gradients = .ok (.ok move.moved, next) ∧
      Course next later last := by
  induction before generalizing first with
  | nil =>
    cases course with
    | step h course => exact ⟨first, _, .done first, h, course⟩
  | cons earlier before ih =>
    cases course with
    | step h course =>
      obtain ⟨o, next, hbefore, hstep, hlater⟩ := ih course
      exact ⟨o, next, .step h hbefore, hstep, hlater⟩

/-- Courses are put together. -/
theorem append {o : Optimizer α} (course : Course first before o) (more : Course o later last) :
    Course first (before ++ later) last := by
  induction course with
  | done o => exact more
  | step h _ ih => exact .step h (ih more)

/-- Each step is counted. -/
theorem toInt_steps (course : Course first moves last) :
    last.steps.toInt = first.steps.toInt + moves.length := by
  induction course with
  | done o => exact (Int.add_zero _).symm
  | @step o next last move moves h course ih =>
    have haccepts := accepts_of_step h
    have hcount : next.steps.toInt = o.steps.toInt + 1 := by
      rw [haccepts.next]
      exact toInt_steps_after haccepts.countable _ _
    rw [ih, hcount, List.length_cons]
    omega

/-- A name with moments keeps their shape in every step that mentions it. -/
theorem shape_of_moments (course : Course first moves last) {m : Matrix (Moment α)}
    (hm : first.moments.find? name = some m) :
    ∀ move ∈ moves, ∀ p, move.parameters.find? name = some p → p.shape = m.shape := by
  induction course generalizing m with
  | done o => exact fun _ hmem => nomatch hmem
  | @step o next last move moves h course ih =>
    have haccepts := accepts_of_step h
    rw [List.forall_mem_cons]
    cases hname : move.parameters.find? name with
    | none =>
      refine ⟨fun p hp => (nomatch hp), ih ?_⟩
      rw [haccepts.find?_moments_of_none hname, hm]
    | some p =>
      obtain ⟨hbefore, m', hm', hshape⟩ := haccepts.shape_moments hname
      rw [momentsOf, hm, Option.getD_some] at hbefore
      constructor
      · intro q hq
        rw [← Option.some.inj hq, hbefore]
      · intro other hother q hq
        rw [ih hm' other hother q hq, hshape, hbefore]

/-- All steps that mention a name give it one shape. -/
theorem pairwise_shape (course : Course first moves last) (name : String) :
    moves.Pairwise fun earlier move => ∀ p q, earlier.parameters.find? name = some p →
      move.parameters.find? name = some q → q.shape = p.shape := by
  induction course with
  | done o => exact .nil
  | step h course ih =>
    refine .cons (fun move hmove p q hp hq => ?_) ih
    obtain ⟨_, m, hm, hshape⟩ := (accepts_of_step h).shape_moments hp
    rw [course.shape_of_moments hm move hmove q hq, hshape]

end Course

end DeferredReward.Optimizer
