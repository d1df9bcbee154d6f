import DeferredReward.Proofs.Optimizer.Elements
import DeferredReward.Proofs.Parameters.Suited

/-!
# A step in turns

The optimizer works in place: one parameter after the other has its moments
accumulated and is moved at once, and only what a turn needs is looked at in that
turn. A gradient is accumulated into moments of any shape that it can be repeated
to; that these are not of the shape of the parameter comes out when the parameter
is to be moved, when the turns before have been made.

No turn reads what another has written. So the turns end as the step says that
asks for all shapes beforehand, and they are cut short exactly when it has a
fault.

Main statements: `turns_of_unreshaped`, `turns_of_reshaped`, `performed_eq`.
-/

namespace DeferredReward

namespace Matrix

variable {α β : Type} [Zero α] [Zero β]

/-- Every element of `a` is replaced by what the function makes of it and of the
element of `b` that meets it, where `b` can be repeated to the shape of `a`. -/
def absorb (f : α → β → α) (a : Matrix α) (b : Matrix β) : Except Fault (Matrix α) :=
  if joinShape? a.shape b.shape = some a.shape then combine f a b
  else .error (.broadcast a.shape b.shape)

theorem absorb_of_shape_eq (f : α → β → α) {a : Matrix α} {b : Matrix β}
    (h : b.shape = a.shape) : absorb f a b = .ok (zip f a b) := by
  rw [absorb, combine_of_shape_eq f h, h, joinShape?_self, if_pos rfl]

/-- Each element meets what the other matrix, repeated where it must be, has at its place. -/
theorem absorb_eq (f : α → β → α) (a : Matrix α) (b : Matrix β) :
    absorb f a b = if joinShape? a.shape b.shape = some a.shape then
        .ok (ofFn a.rows a.cols fun i j =>
          f (a.entry i j) (b.entry (reused b.rows i) (reused b.cols j)))
      else .error (.broadcast a.shape b.shape) := by
  unfold absorb
  split
  · rename_i hjoin
    rw [combine, hjoin]
    refine congrArg Except.ok (ofFn_congr fun i j (hi : i < a.rows) (hj : j < a.cols) => ?_)
    rw [reused_eq_self hi, reused_eq_self hj]
  · rfl

/-- Whatever is absorbed, the shape stays. -/
theorem shape_of_absorb {f : α → β → α} {a result : Matrix α} {b : Matrix β}
    (h : absorb f a b = .ok result) : result.shape = a.shape := by
  rw [absorb_eq] at h
  split at h
  · cases h
    rfl
  · cases h

end Matrix

/-- What is filed under the name of an entry is not read by the entries after it. -/
theorem Catalog.find?_insert_of_rest {β γ : Type} {c d : Catalog γ} {entry : String × β}
    {rest : List (String × β)} (hdistinct : ((entry :: rest).map Prod.fst).Nodup)
    (h : ∀ other ∈ entry :: rest, c.find? other.1 = d.find? other.1) (value : γ) :
    ∀ other ∈ rest, (c.insert entry.1 value).find? other.1 = d.find? other.1 := by
  intro other hother
  rw [List.map_cons, List.nodup_cons] at hdistinct
  have hne : other.1 ≠ entry.1 := fun heq =>
    hdistinct.1 (heq ▸ List.mem_map.2 ⟨other, hother, rfl⟩)
  rw [find?_insert, if_neg hne]
  exact h other (List.mem_cons_of_mem _ hother)

namespace Optimizer

variable {α : Type} [Analysis α]

/-- What the turns of a step change. -/
structure Progress (α : Type) where
  /-- The parameters, of which some have been moved. -/
  parameters : Parameters α
  /-- The moments, of which some have been accumulated. -/
  moments : Catalog (Matrix (Moment α))

/-- The turn of a parameter. -/
def turn (o : Optimizer α) (s : Schedule α) (gradients : Parameters α) (name : String)
    (p : Matrix α) (work : Progress α) : Except Fault (Progress α) := do
  let g ← gradients.fetch name
  let m ← Matrix.absorb o.accumulate ((work.moments.find? name).getD (Matrix.zeros p.shape)) g
  if m.shape = p.shape then
    return {
      parameters := work.parameters.insert name (Matrix.zip (o.descend s) p m)
      moments := work.moments.insert name m }
  else
    throw (.momentShape name)

/-- One turn after the other. -/
def turns (o : Optimizer α) (s : Schedule α) (gradients : Parameters α) :
    List (String × Matrix α) → Progress α → Except Fault (Progress α)
  | [], work => .ok work
  | entry :: rest, work => do
    turns o s gradients rest (← turn o s gradients entry.1 entry.2 work)

/-- A step in place: the refusal if there is one, and the parameters and the
optimizer as they are left. -/
def performed (o : Optimizer α) (parameters gradients : Parameters α) :
    Except Fault (Except NetworkError Unit × Parameters α × Optimizer α) :=
  match parameters.mismatch? gradients with
  | some name => .ok (.error (.unsuitableParameter name), parameters, o)
  | none =>
    if o.steps = Int32.maxValue then .error .countOverflow
    else do
      let steps := o.steps + 1
      let work ← turns o (o.schedule steps) gradients parameters.entries ⟨parameters, o.moments⟩
      return (.ok (), work.parameters, { o with steps, moments := work.moments })

/-- The moments of a parameter after its gradient. -/
def freshOf (o : Optimizer α) (gradients : Parameters α) (name : String) (p : Matrix α) :
    Matrix (Moment α) :=
  Matrix.zip o.accumulate (o.momentsOf name p.shape)
    ((gradients.find? name).getD (Matrix.zeros p.shape))

section Turns

variable {o : Optimizer α} {s : Schedule α} {gradients : Parameters α} {name : String}
  {p : Matrix α} {work : Progress α}

/-- The turn of a parameter whose moments are as at the beginning and have its shape. -/
theorem turn_eq_ok (hsuited : (gradients.find? name).map Matrix.shape = some p.shape)
    (hkept : work.moments.find? name = o.moments.find? name)
    (hshape : (o.momentsOf name p.shape).shape = p.shape) :
    turn o s gradients name p work =
      .ok ⟨work.parameters.insert name (Matrix.zip (o.descend s) p (o.freshOf gradients name p)),
        work.moments.insert name (o.freshOf gradients name p)⟩ := by
  obtain ⟨g, hg, hgshape⟩ := Option.map_eq_some_iff.1 hsuited
  have hfresh : Matrix.absorb o.accumulate (o.momentsOf name p.shape) g =
      .ok (o.freshOf gradients name p) := by
    rw [Matrix.absorb_of_shape_eq _ (hgshape.trans hshape.symm), freshOf, hg, Option.getD_some]
  unfold turn
  rw [bind_eq_of_ok (Parameters.fetch_eq_ok hg), hkept, ← momentsOf, bind_eq_of_ok hfresh]
  exact if_pos hshape

/-- A turn does not end when the moments have another shape: the gradient cannot be
accumulated, or the parameter cannot be moved. -/
theorem turn_faults (hkept : work.moments.find? name = o.moments.find? name)
    (hshape : (o.momentsOf name p.shape).shape ≠ p.shape) :
    ∃ fault, turn o s gradients name p work = .error fault := by
  unfold turn
  rw [hkept, ← momentsOf]
  cases gradients.fetch name with
  | error fault => exact ⟨fault, rfl⟩
  | ok g =>
    cases habsorb : Matrix.absorb o.accumulate (o.momentsOf name p.shape) g with
    | error fault => exact ⟨fault, by rw [bind_eq_of_ok rfl, habsorb]; rfl⟩
    | ok m =>
      have hother : m.shape ≠ p.shape := Matrix.shape_of_absorb habsorb ▸ hshape
      refine ⟨.momentShape name, ?_⟩
      rw [bind_eq_of_ok rfl, bind_eq_of_ok habsorb]
      exact if_neg hother

variable {entries : List (String × Matrix α)} (work)

/-- With moments of their shapes all parameters have their turns. -/
theorem turns_eq_ok (hdistinct : (entries.map Prod.fst).Nodup)
    (hsuited : ∀ entry ∈ entries,
      (gradients.find? entry.1).map Matrix.shape = some entry.2.shape)
    (hkept : ∀ entry ∈ entries, work.moments.find? entry.1 = o.moments.find? entry.1)
    (hshapes : ∀ entry ∈ entries, (o.momentsOf entry.1 entry.2.shape).shape = entry.2.shape) :
    turns o s gradients entries work =
      .ok ⟨work.parameters.insertAll (entries.map fun entry =>
          (entry.1, Matrix.zip (o.descend s) entry.2 (o.freshOf gradients entry.1 entry.2))),
        work.moments.insertAll (entries.map fun entry =>
          (entry.1, o.freshOf gradients entry.1 entry.2))⟩ := by
  induction entries generalizing work with
  | nil => rfl
  | cons entry rest ih =>
    have hlater := Catalog.find?_insert_of_rest hdistinct hkept
    rw [List.map_cons, List.nodup_cons] at hdistinct
    rw [List.forall_mem_cons] at hsuited hkept hshapes
    rw [turns, bind_eq_of_ok (turn_eq_ok hsuited.1 hkept.1 hshapes.1)]
    exact ih _ hdistinct.2 hsuited.2 (hlater _) hshapes.2

/-- The turns are cut short by the first parameter whose moments have another shape. -/
theorem turns_faults (hdistinct : (entries.map Prod.fst).Nodup)
    (hsuited : ∀ entry ∈ entries,
      (gradients.find? entry.1).map Matrix.shape = some entry.2.shape)
    (hkept : ∀ entry ∈ entries, work.moments.find? entry.1 = o.moments.find? entry.1)
    (hreshaped : ∃ entry ∈ entries,
      (o.momentsOf entry.1 entry.2.shape).shape ≠ entry.2.shape) :
    ∃ fault, turns o s gradients entries work = .error fault := by
  induction entries generalizing work with
  | nil =>
    obtain ⟨_, hmem, _⟩ := hreshaped
    cases hmem
  | cons entry rest ih =>
    have hlater := Catalog.find?_insert_of_rest hdistinct hkept
    rw [List.map_cons, List.nodup_cons] at hdistinct
    rw [List.forall_mem_cons] at hsuited hkept
    rw [turns]
    by_cases hshape : (o.momentsOf entry.1 entry.2.shape).shape = entry.2.shape
    · have hrest : ∃ other ∈ rest,
          (o.momentsOf other.1 other.2.shape).shape ≠ other.2.shape := by
        obtain ⟨other, hother, hother'⟩ := hreshaped
        rcases List.mem_cons.1 hother with rfl | hmem
        · exact absurd hshape hother'
        · exact ⟨other, hmem, hother'⟩
      rw [bind_eq_of_ok (turn_eq_ok hsuited.1 hkept.1 hshape)]
      exact ih _ hdistinct.2 hsuited.2 (hlater _) hrest
    · obtain ⟨fault, hfault⟩ : ∃ fault, turn o s gradients entry.1 entry.2 work = .error fault :=
        turn_faults hkept.1 hshape
      exact ⟨fault, by rw [hfault]; rfl⟩

end Turns

/-- The parameters of an accepted step are moved by their own fresh moments. -/
theorem entries_moved (o : Optimizer α) (parameters gradients : Parameters α) :
    (o.moved parameters gradients).entries = parameters.entries.map fun entry =>
      (entry.1, Matrix.zip (o.descend (o.schedule (o.steps + 1))) entry.2
        (o.freshOf gradients entry.1 entry.2)) := by
  refine List.map_congr_left fun entry hentry => ?_
  have hfind := (parameters.find?_eq_some_iff entry.1 entry.2).2 hentry
  dsimp only
  rw [find?_fresh o gradients hfind]
  rfl

/-- When no parameter has moments of another shape, the turns end with what an accepted
step gives back and keeps. -/
theorem turns_of_unreshaped {o : Optimizer α} {parameters gradients : Parameters α}
    (hsuited : parameters.SuitedBy gradients) (hshapes : o.reshaped? parameters = none) :
    turns o (o.schedule (o.steps + 1)) gradients parameters.entries ⟨parameters, o.moments⟩ =
      .ok ⟨o.moved parameters gradients, (o.after parameters gradients).moments⟩ := by
  have hmoments : ∀ entry ∈ parameters.entries,
      (o.momentsOf entry.1 entry.2.shape).shape = entry.2.shape := by
    intro entry hentry
    exact shape_momentsOf hshapes ((parameters.find?_eq_some_iff _ _).2 hentry)
  have hmoved : parameters.merge (o.moved parameters gradients) = o.moved parameters gradients :=
    Catalog.merge_of_names (Parameters.names_of_layout (layout_moved o _ _).symm)
  rw [turns_eq_ok _ parameters.nodup hsuited (fun _ _ => rfl) hmoments, ← entries_moved]
  change Except.ok (Progress.mk (parameters.merge _) _) = _
  rw [hmoved]
  rfl

/-- When a parameter has moments of another shape, the turns are cut short. -/
theorem turns_of_reshaped {o : Optimizer α} {parameters gradients : Parameters α} {name : String}
    (hsuited : parameters.SuitedBy gradients) (hreshaped : o.reshaped? parameters = some name)
    (s : Schedule α) :
    ∃ fault, turns o s gradients parameters.entries ⟨parameters, o.moments⟩ = .error fault := by
  obtain ⟨entry, hfound, -⟩ := Option.map_eq_some_iff.1 hreshaped
  have hoffends := List.find?_some hfound
  exact turns_faults _ parameters.nodup hsuited (fun _ _ => rfl)
    ⟨entry, List.mem_of_find?_eq_some hfound, bne_iff_ne.1 hoffends⟩

/-- What a caller sees of a step that is made in place. -/
def seen (parameters : Parameters α) :
    Except NetworkError (Parameters α) × Optimizer α →
      Except NetworkError Unit × Parameters α × Optimizer α
  | (.ok moved, next) => (.ok (), moved, next)
  | (.error cause, next) => (.error cause, parameters, next)

/-- In place a step has a result exactly when it has one at once, and the same. -/
theorem performed_eq (o : Optimizer α) (parameters gradients : Parameters α) :
    ((∃ fault, o.performed parameters gradients = .error fault) ∧
      ∃ fault, o.step parameters gradients = .error fault) ∨
    ∃ result, o.step parameters gradients = .ok result ∧
      o.performed parameters gradients = .ok (seen parameters result) := by
  unfold performed step
  cases hmismatch : parameters.mismatch? gradients with
  | some name => exact .inr ⟨_, rfl, rfl⟩
  | none =>
    have hsuited := (Parameters.mismatch?_eq_none_iff_suitedBy _ _).1 hmismatch
    dsimp only
    by_cases hsteps : o.steps = Int32.maxValue
    · exact .inl ⟨⟨.countOverflow, if_pos hsteps⟩, .countOverflow, if_pos hsteps⟩
    · rw [if_neg hsteps, if_neg hsteps]
      cases hreshaped : o.reshaped? parameters with
      | some name =>
        obtain ⟨fault, hfault⟩ := turns_of_reshaped hsuited hreshaped (o.schedule (o.steps + 1))
        exact .inl ⟨⟨fault, by rw [hfault]; rfl⟩, .momentShape name, rfl⟩
      | none =>
        refine .inr ⟨(.ok (o.moved parameters gradients), o.after parameters gradients), ?_, ?_⟩
        · dsimp only
          rw [accumulated_eq_ok o hmismatch]
          rfl
        · rw [turns_of_unreshaped hsuited hreshaped]
          rfl

end Optimizer

end DeferredReward
