import DeferredReward.Proofs.Optimizer.Outcome

/-!
# Each kind of running number on its own

An optimizer can keep its means, its squares and its peaks in three catalogs, none of
which knows of the others. A catalog gets an entry when a parameter has its first turn,
of zeros in the shape that the parameter has then; peaks get one only where they are
kept at all.

The three catalogs stay in step: they are the parts of one catalog of moments after
every turn, and a turn with them ends as the turn with moments does, faults included.
So sessions with the one and with the other are the same sessions.

Main statements: `turn_split`, `perform_separate`, `session_separate_iff`,
`layout_of_session`, `perform_outcome`.
-/

namespace DeferredReward

namespace Matrix

variable {α β γ δ : Type} [Zero α] [Zero β] [Zero δ]

/-- The elements of a part are the parts of the elements, outside the matrix too. -/
theorem entry_map_of_zero {h : α → δ} (hzero : h 0 = 0) (a : Matrix α) (i j : ℕ) :
    (a.map h).entry i j = h (a.entry i j) := by
  by_cases hinside : i < a.rows ∧ j < a.cols
  · exact entry_map h a hinside.1 hinside.2
  · rw [entry_of_not_lt a hinside, entry_of_not_lt (a.map h) hinside, hzero]

/-- A part of zeros is zero. -/
theorem map_zeros {h : α → δ} (hzero : h 0 = 0) (shape : Shape) :
    (zeros shape : Matrix α).map h = zeros shape := by
  refine ext_entry rfl rfl fun i j _ _ => ?_
  rw [entry_map_of_zero hzero, entry_zeros, entry_zeros, hzero]

/-- What is absorbed into a part is the part of what is absorbed into the whole. -/
theorem absorb_map {f : α → β → α} {f' : δ → β → δ} {h : α → δ} (hzero : h 0 = 0)
    (hpart : ∀ x y, h (f x y) = f' (h x) y) (a : Matrix α) (b : Matrix β) :
    absorb f' (a.map h) b = (absorb f a b).map (Matrix.map h) := by
  rw [absorb_eq, absorb_eq, shape_map]
  split
  · refine congrArg Except.ok (ext_entry rfl rfl fun i j (hi : i < a.rows) (hj : j < a.cols) => ?_)
    rw [entry_map_of_zero hzero, rows_map, cols_map, entry_ofFn _ hi hj, entry_ofFn _ hi hj, hpart,
      entry_map_of_zero hzero]
  · rfl

/-- Every element of what has absorbed a matrix is made of the element that was there. -/
theorem entry_of_absorb {f : α → β → α} {a result : Matrix α} {b : Matrix β}
    (h : absorb f a b = .ok result) {i j : ℕ} (hi : i < a.rows) (hj : j < a.cols) :
    ∃ y, result.entry i j = f (a.entry i j) y := by
  rw [absorb_eq] at h
  split at h
  · cases h
    exact ⟨_, entry_ofFn _ hi hj⟩
  · cases h

end Matrix

namespace Catalog

variable {β γ : Type}

theorem find?_map (f : β → γ) (c : Catalog β) (name : String) :
    (c.map f).find? name = (c.find? name).map f :=
  c.find?_mapEntries _ name

/-- A value is filed before a function is applied to all values as well as after it. -/
theorem map_insert (f : β → γ) (c : Catalog β) (name : String) (value : β) :
    (c.insert name value).map f = (c.map f).insert name (f value) := by
  refine ext_find? ?_ fun other => ?_
  · rw [names_map, names_insert, names_insert, names_map]
  · rw [find?_map, find?_insert, find?_insert, find?_map]
    split <;> rfl

end Catalog

namespace Optimizer

variable {α : Type} [Analysis α]

/-- The running numbers of the parameters met so far, each kind in a catalog of its own. -/
structure Averages (α : Type) where
  /-- The decaying means of the gradients. -/
  means : Parameters α
  /-- The decaying means of the squared gradients. -/
  squares : Parameters α
  /-- The largest squares, where they are kept. -/
  peaks : Parameters α

/-- No running numbers. -/
def Averages.none : Averages α := ⟨.empty, .empty, .empty⟩

/-- What is kept for a parameter: the entry of its name, or zeros of its shape. -/
def keptFor {β : Type} [Zero β] (kept : Catalog (Matrix β)) (name : String) (p : Matrix α) :
    Matrix β :=
  (kept.find? name).getD (Matrix.zeros p.shape)

/-- The running numbers of a parameter after a gradient, the mean and the number that the divisor
is made of, and the catalogs with the entries of the parameter in them. -/
def Averages.absorb (r : Rule α) (a : Averages α) (name : String) (p g : Matrix α) :
    Except Fault ((Matrix α × Matrix α) × Averages α) := do
  let mean ← Matrix.absorb (fun m g => r.keepMean * m + (1 - r.keepMean) * g)
    (keptFor a.means name p) g
  let square ← Matrix.absorb (fun v g => r.keepSquare * v + (1 - r.keepSquare) * g * g)
    (keptFor a.squares name p) g
  let a := { a with means := a.means.insert name mean, squares := a.squares.insert name square }
  if r.keepsPeak then
    let peak ← Matrix.absorb Arithmetic.larger (keptFor a.peaks name p) square
    return ((mean, peak), { a with peaks := a.peaks.insert name peak })
  else return ((mean, square), a)

/-- The turn of a parameter, which decays before its running numbers are looked at and is moved
after that. -/
def Averages.turn (r : Rule α) (s : Schedule α) (gradients : Parameters α) (name : String)
    (p : Matrix α) (work : Parameters α × Averages α) :
    Except Fault (Parameters α × Averages α) := do
  let g ← gradients.fetch name
  let decayed := p.map (· * s.decay)
  let ((mean, spread), averages) ← work.2.absorb r name p g
  if mean.shape = p.shape ∧ spread.shape = p.shape then
    let moved := Matrix.ofFn p.rows p.cols fun i j =>
      decayed.entry i j - s.rate * mean.entry i j /
        (Analysis.sqrt (spread.entry i j) / s.spread + r.margin)
    return (work.1.insert name moved, averages)
  else
    throw (.momentShape name)

/-- One turn after the other. -/
def Averages.turns (r : Rule α) (s : Schedule α) (gradients : Parameters α) :
    List (String × Matrix α) → Parameters α × Averages α → Except Fault (Parameters α × Averages α)
  | [], work => .ok work
  | entry :: rest, work => do
    turns r s gradients rest (← turn r s gradients entry.1 entry.2 work)

/-- The shared numbers of the step with that count. -/
def scheduleOf (r : Rule α) (count : Int32) : Schedule α where
  decay := 1 - r.learningRate * r.weightDecay
  rate := r.learningRate / (1 - Arithmetic.power r.keepMean count.toInt)
  spread := Analysis.sqrt (1 - Arithmetic.power r.keepSquare count.toInt)

/-- An optimizer with its running numbers apart. -/
structure Separate (α : Type) where
  /-- The settings. -/
  rule : Rule α
  /-- The number of steps made, as a machine integer. -/
  steps : Int32
  /-- The running numbers. -/
  averages : Averages α

/-- A step in place: the refusal if there is one, and the parameters and the optimizer as they are
left. -/
def Separate.perform (o : Separate α) (parameters gradients : Parameters α) :
    Except Fault (Except NetworkError Unit × Parameters α × Separate α) :=
  match parameters.mismatch? gradients with
  | some name => .ok (.error (.unsuitableParameter name), parameters, o)
  | none =>
    if o.steps = Int32.maxValue then .error .countOverflow
    else do
      let steps := o.steps + 1
      let work ← Averages.turns o.rule (scheduleOf o.rule steps) gradients parameters.entries
        (parameters, o.averages)
      return (.ok (), work.1, { o with steps, averages := work.2 })

/-- What the caller of a step in place is shown: whether it was refused, and the parameters then. -/
def Call.shown (call : Call α) : Except NetworkError Unit × Parameters α :=
  match call.answer with
  | .ok moved => (.ok (), moved)
  | .error cause => (.error cause, call.parameters)

/-- The calls that lead from one optimizer to another when each is made in place. -/
inductive Separate.Session : Separate α → List (Call α) → Separate α → Prop where
  /-- No call. -/
  | done (s : Separate α) : Session s [] s
  /-- A call before the others. -/
  | call {s next last : Separate α} {call : Call α} {calls : List (Call α)}
      (h : s.perform call.parameters call.gradients = .ok (call.shown.1, call.shown.2, next))
      (session : Session next calls last) : Session s (call :: calls) last

/-! ## Moments taken apart -/

/-- The running number that the divisor is made of. -/
def spreadOf (keepsPeak : Bool) (m : Moment α) : α := if keepsPeak then m.peak else m.square

/-- The parts of moments; those that are not kept are left out. -/
def split (keepsPeak : Bool) (moments : Catalog (Matrix (Moment α))) : Averages α where
  means := moments.map (Matrix.map Moment.mean)
  squares := moments.map (Matrix.map Moment.square)
  peaks := if keepsPeak then moments.map (Matrix.map Moment.peak) else .empty

/-- The parameters and the parts of the moments. -/
def Progress.split (keepsPeak : Bool) (work : Progress α) : Parameters α × Averages α :=
  (work.parameters, Optimizer.split keepsPeak work.moments)

/-- The optimizer with its moments taken apart. -/
def separate (o : Optimizer α) : Separate α := ⟨o.rule, o.steps, split o.keepsPeak o.moments⟩

theorem spreadOf_zero (keepsPeak : Bool) : spreadOf keepsPeak (0 : Moment α) = 0 := by
  cases keepsPeak <;> rfl

omit [Analysis α] in
/-- Before the first step there is nothing to take apart. -/
theorem separate_of_fresh {o : Optimizer α} (h : o.Fresh) :
    o.separate = ⟨o.rule, 0, Averages.none⟩ := by
  rw [separate, h.steps, h.moments, split]
  split <;> rfl

omit [Analysis α] in
/-- What is kept of a part is the part of what is kept. -/
theorem keptFor_map {β δ : Type} [Zero β] [Zero δ] {h : β → δ} (hzero : h 0 = 0)
    (kept : Catalog (Matrix β)) (name : String) (p : Matrix α) :
    keptFor (kept.map (Matrix.map h)) name p = (keptFor kept name p).map h := by
  rw [keptFor, keptFor, Catalog.find?_map]
  cases kept.find? name with
  | none => exact (Matrix.map_zeros hzero p.shape).symm
  | some m => rfl

variable {o : Optimizer α}

/-- A part of what is kept absorbs a gradient as the whole does. -/
theorem absorb_keptFor_map {β δ : Type} [Zero β] [Zero δ] {f : β → α → β} {f' : δ → α → δ}
    {h : β → δ} (hzero : h 0 = 0) (hpart : ∀ x y, h (f x y) = f' (h x) y)
    (kept : Catalog (Matrix β)) (name : String) (p g : Matrix α) :
    Matrix.absorb f' (keptFor (kept.map (Matrix.map h)) name p) g =
      (Matrix.absorb f (keptFor kept name p) g).map (Matrix.map h) := by
  rw [keptFor_map hzero]
  exact Matrix.absorb_map hzero hpart _ _

/-- The peaks of fresh moments are what the peaks make of the fresh squares. -/
theorem absorb_peaks (hpeak : o.keepsPeak = true) {kept fresh : Matrix (Moment α)} {g : Matrix α}
    (h : Matrix.absorb o.accumulate kept g = .ok fresh) :
    Matrix.absorb Arithmetic.larger (kept.map Moment.peak) (fresh.map Moment.square) =
      .ok (fresh.map Moment.peak) := by
  have hkept : fresh.shape = kept.shape := Matrix.shape_of_absorb h
  have hshape : (fresh.map Moment.square).shape = (kept.map Moment.peak).shape := hkept
  obtain ⟨hrows, hcols⟩ := Matrix.shape_eq_iff.1 hshape
  rw [Matrix.absorb_of_shape_eq _ hshape]
  refine congrArg Except.ok (Matrix.ext_entry hrows.symm hcols.symm
    fun i j (hi : i < kept.rows) (hj : j < kept.cols) => ?_)
  obtain ⟨y, hy⟩ := Matrix.entry_of_absorb h hi hj
  have hpeaks := Matrix.entry_zip Arithmetic.larger (kept.map Moment.peak)
    (fresh.map Moment.square) hi hj
  rw [hpeaks, Matrix.entry_map_of_zero rfl, Matrix.entry_map_of_zero rfl,
    Matrix.entry_map_of_zero rfl, hy, accumulate, hpeak]
  rfl

/-- The parts absorb a gradient as the moments do. -/
theorem absorb_split (o : Optimizer α) (moments : Catalog (Matrix (Moment α))) (name : String)
    (p g : Matrix α) :
    (split o.keepsPeak moments).absorb o.rule name p g =
      (Matrix.absorb o.accumulate (keptFor moments name p) g).map fun m =>
        ((m.map Moment.mean, m.map (spreadOf o.keepsPeak)),
          split o.keepsPeak (moments.insert name m)) := by
  have hmean : Matrix.absorb (fun m g => o.keepMean * m + (1 - o.keepMean) * g)
      (keptFor (moments.map (Matrix.map Moment.mean)) name p) g =
        (Matrix.absorb o.accumulate (keptFor moments name p) g).map (Matrix.map Moment.mean) :=
    absorb_keptFor_map rfl (fun _ _ => rfl) moments name p g
  have hsquare : Matrix.absorb (fun v g => o.keepSquare * v + (1 - o.keepSquare) * g * g)
      (keptFor (moments.map (Matrix.map Moment.square)) name p) g =
        (Matrix.absorb o.accumulate (keptFor moments name p) g).map (Matrix.map Moment.square) :=
    absorb_keptFor_map rfl (fun _ _ => rfl) moments name p g
  unfold Averages.absorb
  cases habsorb : Matrix.absorb o.accumulate (keptFor moments name p) g with
  | error fault =>
    rw [habsorb] at hmean
    exact congrArg (· >>= _) hmean
  | ok fresh =>
    rw [habsorb] at hmean hsquare
    refine (bind_eq_of_ok hmean).trans ((bind_eq_of_ok hsquare).trans ?_)
    have hmeans := Catalog.map_insert (Matrix.map Moment.mean) moments name fresh
    have hsquares := Catalog.map_insert (Matrix.map Moment.square) moments name fresh
    dsimp only [rule, Except.map]
    by_cases hpeak : o.keepsPeak = true
    · have hpeaks := Catalog.map_insert (Matrix.map Moment.peak) moments name fresh
      have hkept : Matrix.absorb Arithmetic.larger
          (keptFor (moments.map (Matrix.map Moment.peak)) name p) (fresh.map Moment.square) =
            .ok (fresh.map Moment.peak) := by
        rw [keptFor_map rfl]
        exact absorb_peaks hpeak habsorb
      have hspread : spreadOf o.keepsPeak = @Moment.peak α := funext fun _ => if_pos hpeak
      simp only [split, hspread, if_pos hpeak, hmeans, hsquares, hpeaks]
      exact bind_eq_of_ok hkept
    · have hspread : spreadOf o.keepsPeak = @Moment.square α := funext fun _ => if_neg hpeak
      simp only [split, hspread, if_neg hpeak, hmeans, hsquares]
      rfl

/-- A parameter is moved by the parts of its fresh moments as by the moments. -/
theorem moved_split (o : Optimizer α) (s : Schedule α) (p : Matrix α) (m : Matrix (Moment α)) :
    (Matrix.ofFn p.rows p.cols fun i j =>
        (p.map (· * s.decay)).entry i j - s.rate * (m.map Moment.mean).entry i j /
          (Analysis.sqrt ((m.map (spreadOf o.keepsPeak)).entry i j) / s.spread + o.rule.margin)) =
      Matrix.zip (o.descend s) p m := by
  refine Matrix.ofFn_congr fun i j hi hj => ?_
  rw [Matrix.entry_map _ p hi hj, Matrix.entry_map_of_zero rfl,
    Matrix.entry_map_of_zero (spreadOf_zero o.keepsPeak)]
  rfl

/-- A turn with the parts ends as the turn with the moments. -/
theorem turn_split (o : Optimizer α) (s : Schedule α) (gradients : Parameters α) (name : String)
    (p : Matrix α) (work : Progress α) :
    Averages.turn o.rule s gradients name p (work.split o.keepsPeak) =
      (o.turn s gradients name p work).map (Progress.split o.keepsPeak) := by
  unfold Averages.turn turn
  cases gradients.fetch name with
  | error fault => rfl
  | ok g =>
    have habsorb := absorb_split o work.moments name p g
    rw [bind_eq_of_ok rfl, bind_eq_of_ok rfl]
    change ((Optimizer.split o.keepsPeak work.moments).absorb o.rule name p g >>= _) =
      (Matrix.absorb o.accumulate (keptFor work.moments name p) g >>= _).map _
    rw [habsorb]
    cases Matrix.absorb o.accumulate (keptFor work.moments name p) g with
    | error fault => rfl
    | ok m =>
      refine (bind_eq_of_ok rfl).trans ?_
      rw [bind_eq_of_ok rfl]
      dsimp only
      rw [moved_split, Matrix.shape_map, Matrix.shape_map]
      by_cases hshape : m.shape = p.shape
      · rw [if_pos ⟨hshape, hshape⟩, if_pos hshape]
        rfl
      · rw [if_neg fun h => hshape h.1, if_neg hshape]
        rfl

/-- The turns with the parts are those with the moments. -/
theorem turns_split (o : Optimizer α) (s : Schedule α) (gradients : Parameters α)
    (entries : List (String × Matrix α)) (work : Progress α) :
    Averages.turns o.rule s gradients entries (work.split o.keepsPeak) =
      (o.turns s gradients entries work).map (Progress.split o.keepsPeak) := by
  induction entries generalizing work with
  | nil => rfl
  | cons entry rest ih =>
    rw [Averages.turns, turns, turn_split]
    cases o.turn s gradients entry.1 entry.2 work with
    | error fault => rfl
    | ok next => exact ih next

/-- A step with the parts ends as the step with the moments. -/
theorem perform_separate (o : Optimizer α) (parameters gradients : Parameters α) :
    o.separate.perform parameters gradients =
      (o.performed parameters gradients).map fun result =>
        (result.1, result.2.1, result.2.2.separate) := by
  unfold Separate.perform performed
  cases parameters.mismatch? gradients with
  | some name => rfl
  | none =>
    have hturns := turns_split o (o.schedule (o.steps + 1)) gradients parameters.entries
      ⟨parameters, o.moments⟩
    by_cases hsteps : o.steps = Int32.maxValue
    · have hcount : o.separate.steps = Int32.maxValue := hsteps
      dsimp only
      rw [if_pos hcount, if_pos hsteps]
      rfl
    · have hcount : o.separate.steps ≠ Int32.maxValue := hsteps
      dsimp only
      rw [if_neg hcount, if_neg hsteps]
      refine (congrArg (· >>= _) hturns).trans ?_
      cases o.turns (o.schedule (o.steps + 1)) gradients parameters.entries
        ⟨parameters, o.moments⟩ with
      | error fault => rfl
      | ok work => rfl

/-- A step shows in place what it gives back at once. -/
theorem step_eq_ok_iff_performed (call : Call α) {next : Optimizer α} :
    o.step call.parameters call.gradients = .ok (call.answer, next) ↔
      o.performed call.parameters call.gradients = .ok (call.shown.1, call.shown.2, next) := by
  obtain ⟨⟨_, hperformed⟩, _, hstep⟩ | ⟨⟨answer, after⟩, hstep, hperformed⟩ :=
    performed_eq o call.parameters call.gradients
  · simp [hperformed, hstep]
  · rw [hperformed, hstep, Call.shown]
    cases answer <;> cases call.answer <;> simp [seen]

/-- Sessions with the parts are those with the moments. -/
theorem session_separate_iff {calls : List (Call α)} {s : Separate α} :
    Separate.Session o.separate calls s ↔ ∃ last, Session o calls last ∧ s = last.separate := by
  constructor
  · intro session
    generalize hfirst : o.separate = first at session
    induction session generalizing o with
    | done _ => exact ⟨o, .done o, hfirst.symm⟩
    | @call _ next _ call _ h _ ih =>
      subst hfirst
      rw [perform_separate] at h
      cases hperformed : o.performed call.parameters call.gradients with
      | error fault =>
        rw [hperformed] at h
        cases h
      | ok result =>
        obtain ⟨refusal, left, after⟩ := result
        rw [hperformed] at h
        cases h
        obtain ⟨last, hsession, hlast⟩ := ih rfl
        exact ⟨last, .call ((step_eq_ok_iff_performed _).2 hperformed) hsession, hlast⟩
  · rintro ⟨last, session, rfl⟩
    induction session with
    | done o => exact .done o.separate
    | call h _ ih =>
      refine .call ?_ ih
      rw [perform_separate, (step_eq_ok_iff_performed _).1 h]
      rfl

/-- The three catalogs stay in step: whatever calls there have been, every name with a mean has a
square of the same shape, and a peak of that shape where peaks are kept. -/
theorem layout_of_session (hfresh : o.Fresh) {calls : List (Call α)} {s : Separate α}
    (session : Separate.Session ⟨o.rule, 0, Averages.none⟩ calls s) :
    s.averages.squares.layout = s.averages.means.layout ∧
      s.averages.peaks.layout = if o.keepsPeak then s.averages.means.layout else [] := by
  rw [← separate_of_fresh hfresh] at session
  obtain ⟨last, hsession, rfl⟩ := session_separate_iff.1 session
  have hpart : ∀ h : Moment α → α,
      Parameters.layout (last.moments.map (Matrix.map h)) = Parameters.layout last.moments :=
    fun h => Parameters.layout_mapEntries fun _ _ => rfl
  have hpeak : last.keepsPeak = o.keepsPeak :=
    congrArg Rule.keepsPeak (rule_of_course hsession.course)
  refine ⟨(hpart _).trans (hpart _).symm, ?_⟩
  rw [← hpeak]
  dsimp only [separate, split]
  split
  · exact (hpart _).trans (hpart _).symm
  · rfl

/-- A step that has a result at once has it with the parts. -/
theorem perform_of_step {parameters gradients : Parameters α}
    {answer : Except NetworkError (Parameters α)} {next : Optimizer α}
    (h : o.step parameters gradients = .ok (answer, next)) :
    o.separate.perform parameters gradients =
      .ok ((Call.mk parameters gradients answer).shown.1,
        (Call.mk parameters gradients answer).shown.2, next.separate) := by
  have hperformed := (step_eq_ok_iff_performed ⟨parameters, gradients, answer⟩).1 h
  rw [perform_separate, hperformed]
  rfl

/-- A step that has a fault at once has one with the parts. -/
theorem perform_faults {parameters gradients : Parameters α} {fault : Fault}
    (h : o.step parameters gradients = .error fault) :
    ∃ fault, o.separate.perform parameters gradients = .error fault := by
  obtain ⟨⟨cause, hperformed⟩, _⟩ | ⟨_, hstep, _⟩ := performed_eq o parameters gradients
  · exact ⟨cause, by rw [perform_separate, hperformed]; rfl⟩
  · rw [h] at hstep
    cases hstep

/-- After any calls, with the running numbers in three catalogs: gradients that do not suit the
parameters are refused, by the name of the first, and nothing changes. Otherwise a parameter that an
accepted call gave another shape is a fault, and without one the step goes through as long as it
can be counted. -/
theorem perform_outcome (hfresh : o.Fresh) {calls : List (Call α)} {s : Separate α}
    (session : Separate.Session ⟨o.rule, 0, Averages.none⟩ calls s)
    (parameters gradients : Parameters α) :
    (¬parameters.SuitedBy gradients → ∃ name, parameters.FirstUnsuited gradients name ∧
      s.perform parameters gradients = .ok (.error (.unsuitableParameter name), parameters, s)) ∧
    (parameters.SuitedBy gradients →
      (∃ call ∈ calls, ∃ name shape, call.Gave name shape ∧
        ∃ p, parameters.find? name = some p ∧ shape ≠ p.shape) →
      ∃ fault, s.perform parameters gradients = .error fault) ∧
    (parameters.SuitedBy gradients →
      (¬∃ call ∈ calls, ∃ name shape, call.Gave name shape ∧
        ∃ p, parameters.find? name = some p ∧ shape ≠ p.shape) →
      s.steps.toInt < 2 ^ 31 - 1 →
      ∃ moved next, s.perform parameters gradients = .ok (.ok (), moved, next) ∧
        next.steps.toInt = s.steps.toInt + 1 ∧ moved.layout = parameters.layout) := by
  rw [← separate_of_fresh hfresh] at session
  obtain ⟨last, hsession, rfl⟩ := session_separate_iff.1 session
  rw [← hsession.reshaped_iff hfresh]
  refine ⟨fun hunsuited => ?_, fun hsuited hreshaped => ?_, fun hsuited hshapes hcount => ?_⟩
  · obtain ⟨cause, next, hstep⟩ := (step_refuses_iff last parameters gradients).2 hunsuited
    obtain ⟨rfl, name, hfirst, rfl⟩ := refusal_of_step hstep
    exact ⟨name, hfirst, perform_of_step hstep⟩
  · obtain ⟨_, hstep⟩ := step_faults hsuited hreshaped
    exact perform_faults hstep
  · obtain ⟨moved, next, hstep, hsteps, hlayout, _⟩ := step_succeeds hsuited hshapes hcount
    exact ⟨moved, next.separate, perform_of_step hstep, hsteps, hlayout⟩

end Optimizer

end DeferredReward
