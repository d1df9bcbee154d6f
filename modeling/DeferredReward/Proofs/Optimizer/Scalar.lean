import DeferredReward.Arithmetic.Double
import DeferredReward.Proofs.Optimizer.Course

/-!
# One number at a time

A rule optimizes a single number: it knows the gradients that the number has had
and the number of the step, and nothing else. An optimizer of catalogs is such a
rule at every element. So the value of an element after a step is made of its
value before, of the gradients of its own in the steps that mention its name,
and of the number that the step has among all steps; whatever else the catalogs
hold, and in whatever order, has no influence.

Nothing is assumed of the arithmetic.

Main statement: `elements_follow_rule`.
-/

namespace DeferredReward

/-- The settings by which a single number is optimized. -/
structure Rule (α : Type) where
  learningRate : α
  keepMean : α
  keepSquare : α
  margin : α
  weightDecay : α
  keepsPeak : Bool

namespace Rule

variable {α : Type} [Analysis α]

/-- The running numbers after one more gradient. -/
def observe (r : Rule α) (m : Moment α) (g : α) : Moment α where
  mean := r.keepMean * m.mean + (1 - r.keepMean) * g
  square := r.keepSquare * m.square + (1 - r.keepSquare) * g * g
  peak :=
    if r.keepsPeak then
      Arithmetic.larger m.peak (r.keepSquare * m.square + (1 - r.keepSquare) * g * g)
    else m.peak

/-- The running numbers after gradients, which start from zero. -/
def track (r : Rule α) (gradients : List α) : Moment α := gradients.foldl r.observe 0

/-- The correction for the bias of the mean at the step of that number. -/
def meanCorrection (r : Rule α) (number : ℕ) : α := 1 - Arithmetic.power r.keepMean number

/-- The correction for the bias of the mean square at the step of that number. -/
def squareCorrection (r : Rule α) (number : ℕ) : α := 1 - Arithmetic.power r.keepSquare number

/-- What the mean is divided by at the step of that number. -/
def divisor (r : Rule α) (number : ℕ) (m : Moment α) : α :=
  Analysis.sqrt (if r.keepsPeak then m.peak else m.square) /
    Analysis.sqrt (r.squareCorrection number) + r.margin

/-- What becomes of a value in the step of that number: it decays, and moves
against the mean of the gradients up to and including that of the step. -/
def value (r : Rule α) (number : ℕ) (x : α) (gradients : List α) : α :=
  x * (1 - r.learningRate * r.weightDecay) -
    r.learningRate / r.meanCorrection number * (r.track gradients).mean /
      r.divisor number (r.track gradients)

end Rule

namespace Optimizer

variable {α : Type} [Analysis α]

/-- The rule of an optimizer. -/
def rule (o : Optimizer α) : Rule α :=
  ⟨o.learningRate, o.keepMean, o.keepSquare, o.margin, o.weightDecay, o.keepsPeak⟩

/-- An element's moment is accumulated by the rule. -/
theorem accumulate_eq (o : Optimizer α) : o.accumulate = o.rule.observe := rfl

/-- An element is moved by the rule, at the step whose number is counted. -/
theorem descend_eq (o : Optimizer α) {count : Int32} {number : ℕ} (h : count.toInt = number)
    (x : α) (gradients : List α) :
    o.descend (o.schedule count) x (o.rule.track gradients) = o.rule.value number x gradients := by
  unfold descend schedule
  rw [h]
  rfl

/-- The gradients of an element in the steps that mention its name. -/
def gradientsOf (moves : List (Move α)) (name : String) (row col : ℕ) : List α :=
  (moves.filter fun move => (move.parameters.find? name).isSome).map
    fun move => move.gradients.element name row col

/-- A step that does not mention the name adds no gradient. -/
theorem gradientsOf_cons_of_none {move : Move α} {name : String}
    (h : move.parameters.find? name = none) (moves : List (Move α)) (row col : ℕ) :
    gradientsOf (move :: moves) name row col = gradientsOf moves name row col := by
  rw [gradientsOf, gradientsOf, List.filter_cons_of_neg (by simp [h])]

/-- A step that mentions the name adds its gradient. -/
theorem gradientsOf_cons_of_some {move : Move α} {name : String} {p : Matrix α}
    (h : move.parameters.find? name = some p) (moves : List (Move α)) (row col : ℕ) :
    gradientsOf (move :: moves) name row col =
      move.gradients.element name row col :: gradientsOf moves name row col := by
  rw [gradientsOf, gradientsOf, List.filter_cons_of_pos (by simp [h]), List.map_cons]

/-- The gradient of the last step comes last. -/
theorem gradientsOf_append_of_some {move : Move α} {name : String} {p : Matrix α}
    (h : move.parameters.find? name = some p) (moves : List (Move α)) (row col : ℕ) :
    gradientsOf (moves ++ [move]) name row col =
      gradientsOf moves name row col ++ [move.gradients.element name row col] := by
  rw [gradientsOf, gradientsOf, List.filter_append, List.map_append,
    List.filter_cons_of_pos (by simp [h])]
  rfl

/-- No step changes the settings. -/
theorem rule_of_course {first last : Optimizer α} {moves : List (Move α)}
    (course : Course first moves last) : last.rule = first.rule := by
  induction course with
  | done o => rfl
  | step h _ ih => rw [ih, (accepts_of_step h).next, after, rule, rule]

/-- The moments of an element are those that the rule makes of its own gradients. -/
theorem element_moments_of_course {first last : Optimizer α} {moves : List (Move α)}
    (course : Course first moves last) {name : String} {shape : Shape}
    (hshape : ∀ move ∈ moves, ∀ p, move.parameters.find? name = some p → p.shape = shape)
    {row col : ℕ} (hrow : row < shape.rows) (hcol : col < shape.cols) :
    Parameters.element last.moments name row col =
      (gradientsOf moves name row col).foldl first.rule.observe
        (Parameters.element first.moments name row col) := by
  induction course with
  | done o => rfl
  | @step o next last move moves h course ih =>
    have haccepts := accepts_of_step h
    have hrule : next.rule = o.rule := by rw [haccepts.next, after, rule, rule]
    rw [List.forall_mem_cons] at hshape
    rw [ih hshape.2, hrule]
    cases hname : move.parameters.find? name with
    | none =>
      rw [gradientsOf_cons_of_none hname, Parameters.element, Parameters.element,
        haccepts.find?_moments_of_none hname]
    | some p =>
      have hp : p.shape = ⟨shape.rows, shape.cols⟩ := hshape.1 p hname
      obtain ⟨hrows, hcols⟩ := Matrix.shape_eq_iff.1 hp
      have hhas : move.parameters.Has name row col := ⟨p, hname, hrows ▸ hrow, hcols ▸ hcol⟩
      rw [gradientsOf_cons_of_some hname, List.foldl_cons, haccepts.next,
        element_moments_after haccepts.suited haccepts.unreshaped hhas, accumulate_eq]

/-! ## The other entries have no influence -/

/-- The rule tells how elements are moved in the step of any number. -/
theorem descend_of_rule {o o' : Optimizer α} (h : o'.rule = o.rule) (count : Int32) :
    o'.descend (o'.schedule count) = o.descend (o.schedule count) := by
  obtain ⟨hrate, hmean, hsquare, hmargin, hdecay, hpeak⟩ := Rule.mk.inj h
  funext x m
  unfold descend schedule
  rw [hrate, hmean, hsquare, hmargin, hdecay, hpeak]

/-- Two steps are given the same under a name: the same parameter or none and,
if there is one, the same gradient. -/
def AgreeOn (name : String) (a b : Move α) : Prop :=
  b.parameters.find? name = a.parameters.find? name ∧
    (a.parameters.find? name ≠ none → b.gradients.find? name = a.gradients.find? name)

/-- What a step does under a name is a matter of the rule, of the number of the
step and of what there is under this name. -/
theorem find?_of_agree {o o' next next' : Optimizer α} {a b : Move α} {name : String}
    (ha : o.Accepts a next) (hb : o'.Accepts b next') (hrule : o'.rule = o.rule)
    (hsteps : o'.steps = o.steps) (hmoments : o'.moments.find? name = o.moments.find? name)
    (h : AgreeOn name a b) :
    b.moved.find? name = a.moved.find? name ∧
      next'.moments.find? name = next.moments.find? name := by
  obtain ⟨hparameters, hgradients⟩ := h
  cases hname : a.parameters.find? name with
  | none =>
    rw [hname] at hparameters
    rw [ha.find?_moments_of_none hname, hb.find?_moments_of_none hparameters, ha.moved, hb.moved,
      moved, moved, descended, descended, Catalog.find?_mapEntries, Catalog.find?_mapEntries, hname,
      hparameters]
    exact ⟨rfl, hmoments⟩
  | some p =>
    rw [hname] at hparameters
    have hgradient := hgradients (by simp [hname])
    have hkept : o'.momentsOf name p.shape = o.momentsOf name p.shape := by
      rw [momentsOf, momentsOf, hmoments]
    have haccumulate : o'.accumulate = o.accumulate := by
      rw [accumulate_eq, accumulate_eq, hrule]
    constructor
    · rw [ha.moved, hb.moved, find?_moved o _ hname, find?_moved o' _ hparameters, hgradient, hkept,
        haccumulate, hsteps, descend_of_rule hrule]
    · rw [ha.next, hb.next, find?_moments_after o _ hname, find?_moments_after o' _ hparameters,
        find?_fresh o _ hname, find?_fresh o' _ hparameters, hgradient, hkept, haccumulate]

/-- Courses that agree on a name give the same parameters and moments under it. -/
theorem find?_of_courses {first first' last last' : Optimizer α} {moves moves' : List (Move α)}
    {name : String} (course : Course first moves last) (course' : Course first' moves' last')
    (hrule : first'.rule = first.rule) (hsteps : first'.steps = first.steps)
    (hmoments : first'.moments.find? name = first.moments.find? name)
    (h : List.Forall₂ (AgreeOn name) moves moves') :
    List.Forall₂ (fun a b => b.moved.find? name = a.moved.find? name) moves moves' ∧
      last'.moments.find? name = last.moments.find? name := by
  induction course generalizing first' moves' with
  | done o =>
    cases h
    cases course'
    exact ⟨.nil, hmoments⟩
  | @step o next last move moves hstep course ih =>
    cases h with
    | @cons _ move' _ moves' hagree hrest =>
      cases course' with
      | @step _ next' _ _ _ hstep' course' =>
        have ha := accepts_of_step hstep
        have hb := accepts_of_step hstep'
        obtain ⟨hmoved, hafter⟩ := find?_of_agree ha hb hrule hsteps hmoments hagree
        have hrules : next'.rule = next.rule := by
          rw [rule_of_course (.step hstep' (.done next')), hrule,
            rule_of_course (.step hstep (.done next))]
        have hcounts : next'.steps = next.steps := by
          rw [ha.next, hb.next, after, after, hsteps]
        obtain ⟨hothers, hlast⟩ := ih course' hrules hcounts hafter hrest
        exact ⟨.cons hmoved hothers, hlast⟩

/-! ## Courses from the beginning -/

/-- The optimizer has not made a step yet. -/
structure Fresh (o : Optimizer α) : Prop where
  steps : o.steps = 0
  moments : o.moments = .empty

omit [Analysis α] in
theorem Fresh.toInt_steps {o : Optimizer α} (h : o.Fresh) : o.steps.toInt = 0 := by
  rw [h.steps]
  rfl

/-- In a course from a fresh optimizer, the count of a step is its number. -/
theorem number_of_course {first o next : Optimizer α} (hfresh : first.Fresh)
    {before : List (Move α)} {move : Move α} (course : Course first before o)
    (h : o.step move.parameters move.gradients = .ok (.ok move.moved, next)) :
    (o.steps + 1).toInt = (before.length + 1 : ℕ) := by
  have haccepts := accepts_of_step h
  have hwhole := (course.append (.step h (.done next))).toInt_steps
  rw [haccepts.next, hfresh.toInt_steps, List.length_append, List.length_singleton,
    Int.zero_add] at hwhole
  exact hwhole

/-- In a course from a fresh optimizer, the moments after a step that mentions an
element are those of its gradients, and its value is the one that the rule gives. -/
theorem element_of_course {first : Optimizer α} (hfresh : first.Fresh) {before : List (Move α)}
    {o next : Optimizer α} {move : Move α} (course : Course first before o)
    (h : o.step move.parameters move.gradients = .ok (.ok move.moved, next)) {name : String}
    {row col : ℕ} (hhas : move.parameters.Has name row col) :
    Parameters.element next.moments name row col =
        first.rule.track (gradientsOf (before ++ [move]) name row col) ∧
      move.moved.element name row col =
        first.rule.value (before.length + 1) (move.parameters.element name row col)
          (gradientsOf (before ++ [move]) name row col) := by
  have haccepts := accepts_of_step h
  have hrule := rule_of_course course
  obtain ⟨p, hp, hrow, hcol⟩ := id hhas
  have hshape : ∀ earlier ∈ before, ∀ q, earlier.parameters.find? name = some q →
      q.shape = p.shape := by
    intro earlier hearlier q hq
    have hwhole : Course first (before ++ [move]) next := course.append (.step h (.done next))
    have hpairs := List.pairwise_append.1 (hwhole.pairwise_shape name)
    exact (hpairs.2.2 earlier hearlier move (List.mem_singleton_self move) q p hq hp).symm
  have hbefore : Parameters.element o.moments name row col =
      first.rule.track (gradientsOf before name row col) := by
    rw [element_moments_of_course course hshape hrow hcol, hfresh.moments]
    rfl
  have hafter : Parameters.element next.moments name row col =
      first.rule.track (gradientsOf (before ++ [move]) name row col) := by
    rw [haccepts.next, element_moments_after haccepts.suited haccepts.unreshaped hhas, hbefore,
      accumulate_eq, hrule, gradientsOf_append_of_some hp, Rule.track, Rule.track,
      List.foldl_append]
    rfl
  refine ⟨hafter, ?_⟩
  rw [haccepts.moved, element_moved o move.gradients hhas, ← haccepts.next, hafter, ← hrule,
    descend_eq o (number_of_course hfresh course h)]

/-- In every course from a fresh optimizer each step keeps the layout of its
parameters, gives each of their elements the value and the moments that the rule
makes of the element's own gradients at the number of the step, and leaves the
moments of all other names as they were. Courses of one rule that agree on a name
agree on all that becomes of it. -/
theorem elements_follow_rule {first last : Optimizer α} (hfresh : first.Fresh)
    {moves : List (Move α)} (course : Course first moves last) :
    (∀ before move later, moves = before ++ move :: later → ∃ o next, Course first before o ∧
      o.step move.parameters move.gradients = .ok (.ok move.moved, next) ∧
      move.moved.layout = move.parameters.layout ∧
      (∀ name row col, move.parameters.Has name row col →
        Parameters.element next.moments name row col =
            first.rule.track (gradientsOf (before ++ [move]) name row col) ∧
          move.moved.element name row col =
            first.rule.value (before.length + 1) (move.parameters.element name row col)
              (gradientsOf (before ++ [move]) name row col)) ∧
      ∀ name, move.parameters.find? name = none →
        next.moments.find? name = o.moments.find? name) ∧
    ∀ (first' last' : Optimizer α) (moves' : List (Move α)), first'.Fresh →
      first'.rule = first.rule → Course first' moves' last' →
      ∀ name, List.Forall₂ (AgreeOn name) moves moves' →
        List.Forall₂ (fun a b => b.moved.find? name = a.moved.find? name) moves moves' ∧
          last'.moments.find? name = last.moments.find? name := by
  constructor
  · rintro before move later rfl
    obtain ⟨o, next, hbefore, hstep, _⟩ := course.split
    have haccepts := accepts_of_step hstep
    refine ⟨o, next, hbefore, hstep, ?_, ?_, ?_⟩
    · rw [haccepts.moved, layout_moved]
    · exact fun name row col hhas => element_of_course hfresh hbefore hstep hhas
    · exact fun name hname => haccepts.find?_moments_of_none hname
  · intro first' last' moves' hfresh' hrule course' name hagree
    have hsteps : first'.steps = first.steps := by rw [hfresh.steps, hfresh'.steps]
    have hmoments : first'.moments.find? name = first.moments.find? name := by
      rw [hfresh.moments, hfresh'.moments]
    exact find?_of_courses course course' hrule hsteps hmoments hagree

/-- A row of two weights. -/
def weights : Parameters Float := .ofList [("w", .row #[1.0, -1.0])]

/-- The same row behind a bias. -/
def biasAndWeights : Parameters Float := .ofList [("b", .row #[0.5]), ("w", .row #[1.0, -1.0])]

/-- A bias that comes in with the second step has one gradient and the number
two; a weight that is there from the beginning has two gradients. -/
theorem elements_follow_rule_biasAndWeights :
    ∃ moved moved' last,
      Course (ofRate (0.1 : Float))
        [⟨weights, weights, moved⟩, ⟨biasAndWeights, biasAndWeights, moved'⟩] last ∧
      moved'.element "b" 0 0 = (ofRate 0.1).rule.value 2 0.5 [0.5] ∧
      moved'.element "w" 0 1 = (ofRate 0.1).rule.value 2 (-1.0) [-1.0, -1.0] := by
  have hfresh : (ofRate (0.1 : Float)).Fresh := ⟨rfl, rfl⟩
  have hcount : (ofRate (0.1 : Float)).steps ≠ Int32.maxValue := by decide
  have hcount' : ((ofRate (0.1 : Float)).after weights weights).steps ≠ Int32.maxValue := by decide
  have hshapes : (ofRate (0.1 : Float)).reshaped? weights = none := by decide +kernel
  have hshapes' : ((ofRate (0.1 : Float)).after weights weights).reshaped? biasAndWeights =
      none := by decide +kernel
  have hhasBias : biasAndWeights.Has "b" 0 0 := ⟨.row #[0.5], rfl, by decide, by decide⟩
  have hhasWeight : biasAndWeights.Has "w" 0 1 := ⟨.row #[1.0, -1.0], rfl, by decide, by decide⟩
  have hfirst := step_of_layout rfl hcount hshapes
  have hsecond := step_of_layout rfl hcount' hshapes'
  have course : Course (ofRate (0.1 : Float))
      [⟨weights, weights, _⟩, ⟨biasAndWeights, biasAndWeights, _⟩] _ :=
    .step hfirst (.step hsecond (.done _))
  refine ⟨_, _, _, course, ?_⟩
  obtain ⟨_, _, _, _, _, hvalues, _⟩ := (elements_follow_rule hfresh course).1 [_] _ [] rfl
  obtain ⟨_, hbias⟩ := hvalues "b" 0 0 hhasBias
  obtain ⟨_, hweight⟩ := hvalues "w" 0 1 hhasWeight
  exact ⟨hbias, hweight⟩

end Optimizer

end DeferredReward
