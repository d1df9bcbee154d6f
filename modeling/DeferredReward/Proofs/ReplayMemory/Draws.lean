import DeferredReward.Proofs.ReplayMemory
import Mathlib.Data.List.DropRight

/-!
# Batches from a moving window

Callers push transitions into a memory and draw batches from it in any order. However
often it has overflowed and whatever has been drawn before, the memory holds the last
transitions pushed, up to its capacity. A batch is drawn from distinct positions of this
window: a transition that was forgotten is never drawn, and none is drawn twice. A batch
that is larger than the window is refused, and the memory stays as it is, so that the
generator goes on from where it was. All of this holds for any way to choose positions
that gives as many distinct ones as it is asked for.

Main statements: `toList_serveAll`, `batches_from_window`.
-/

namespace DeferredReward.ReplayMemory

variable {α : Type} (choose : Generator.Chooser)

/-- What a memory is asked for. -/
inductive Request (α : Type) where
  /-- One more transition is kept. -/
  | push (t : Transition α)
  /-- A batch is drawn. -/
  | sample (count : ℕ)

/-- The transition that a request pushes. -/
def Request.pushed? : Request α → Option (Transition α)
  | push t => some t
  | sample _ => none

/-- The transitions that requests push, in order. -/
def pushed (requests : List (Request α)) : List (Transition α) :=
  requests.filterMap Request.pushed?

/-- The memory after a request. -/
def serve (m : ReplayMemory α) : Request α → ReplayMemory α
  | .push t => m.push t
  | .sample count => (m.sampleBy choose count).2

/-- The memory after requests in order. -/
def serveAll (m : ReplayMemory α) (requests : List (Request α)) : ReplayMemory α :=
  requests.foldl (serve choose) m

@[simp] theorem capacity_serve (m : ReplayMemory α) (request : Request α) :
    (m.serve choose request).capacity = m.capacity := by
  cases request with
  | push t => exact m.capacity_push t
  | sample count => exact m.capacity_sampleBy choose count

@[simp] theorem capacity_serveAll (m : ReplayMemory α) (requests : List (Request α)) :
    (m.serveAll choose requests).capacity = m.capacity := by
  induction requests generalizing m with
  | nil => rfl
  | cons request rest ih =>
    exact (ih (m.serve choose request)).trans (m.capacity_serve choose request)

variable {choose}

/-- A request moves the window of a log on by what it pushes. -/
theorem toList_serve {m : ReplayMemory α} {log : List (Transition α)}
    (h : m.toList = log.rtake m.capacity) (request : Request α) :
    (m.serve choose request).toList = (log ++ request.pushed?.toList).rtake m.capacity := by
  cases request with
  | push t => exact toList_push_of_window h t
  | sample count =>
    rw [Request.pushed?, Option.toList_none, List.append_nil]
    exact (m.toList_sampleBy choose count).trans h

/-- Whatever is drawn in between, the memory shows the end of the log that pushes extend. -/
theorem toList_serveAll {m : ReplayMemory α} {log : List (Transition α)}
    (h : m.toList = log.rtake m.capacity) (requests : List (Request α)) :
    (m.serveAll choose requests).toList = (log ++ pushed requests).rtake m.capacity := by
  induction requests generalizing m log with
  | nil => rwa [pushed, List.filterMap_nil, List.append_nil]
  | cons request rest ih =>
    have hstep : (m.serve choose request).toList = _ := toList_serve h request
    rw [← m.capacity_serve choose request] at hstep
    have hrest := ih hstep
    have hpushed : pushed (request :: rest) = request.pushed?.toList ++ pushed rest := by
      cases request <;> rfl
    rw [hpushed, ← List.append_assoc, ← m.capacity_serve choose request]
    exact hrest

/-- Take any way to choose that gives as many distinct positions as it is asked for, up to
the length. After any pushes and draws a memory of any capacity, none included, holds the
last transitions pushed. A batch is refused exactly when it is larger than the window, with
both numbers told and the memory left as it is, generator included. Otherwise it is
drawn from as many distinct positions of the window as it has transitions, so that it is
part of the window as a multiset, and all of it when it is as large. Drawing leaves the
window and the capacity to all that is asked later. -/
theorem batches_from_window (hchoose : Generator.Chooses choose) (capacity : ℕ) (seed : UInt64)
    (requests : List (Request α)) :
    let m := (ofSeed capacity seed).serveAll choose requests
    let window := (pushed requests).rtake capacity
    m.toList = window ∧ m.size = min (pushed requests).length capacity ∧
    m.capacity = capacity ∧
    ∀ count,
      ((∃ cause, (m.sampleBy choose count).1 = .error cause) ↔ m.size < count) ∧
      (m.size < count → m.sampleBy choose count = (.error ⟨count, m.size⟩, m)) ∧
      (count ≤ m.size → ∃ batch, (m.sampleBy choose count).1 = .ok batch ∧
        batch.length = count ∧ DrawnFrom window batch ∧ batch.Subperm window ∧
        (count = m.size → batch.Perm window)) ∧
      (m.sampleBy choose count).2.toList = window ∧
      (m.sampleBy choose count).2.capacity = capacity ∧
      ∀ later, ((m.sampleBy choose count).2.serveAll choose later).toList =
        (m.serveAll choose later).toList := by
  intro m window
  have hcapacity : m.capacity = capacity := capacity_serveAll choose _ requests
  have hwindow : m.toList = window := by
    have hempty : (ofSeed capacity seed : ReplayMemory α).toList = [].rtake capacity :=
      (List.rtake_nil capacity).symm
    exact toList_serveAll hempty requests
  have hsize : m.size = min (pushed requests).length capacity := by
    have hlength : window.length =
        (pushed requests).length - ((pushed requests).length - capacity) := List.length_drop
    rw [← m.length_toList, hwindow, hlength]
    omega
  have hlarger : ∀ count, m.size < count →
      m.sampleBy choose count = (.error ⟨count, m.size⟩, m) := fun count hfew => if_pos hfew
  refine ⟨hwindow, hsize, hcapacity, fun count => ⟨⟨?_, fun hfew => ?_⟩, hlarger count,
    fun henough => ?_, (m.toList_sampleBy choose count).trans hwindow,
    (m.capacity_sampleBy choose count).trans hcapacity, fun later => ?_⟩⟩
  · rintro ⟨cause, hrefused⟩
    by_contra henough
    obtain ⟨batch, hbatch, _⟩ := drawnFrom_sampleBy hchoose (Nat.not_lt.1 henough)
    cases hrefused.symm.trans hbatch
  · exact ⟨_, congrArg Prod.fst (hlarger count hfew)⟩
  · obtain ⟨batch, hbatch, hlength, hfrom⟩ := drawnFrom_sampleBy hchoose henough
    rw [hwindow] at hfrom
    refine ⟨batch, hbatch, hlength, hfrom, hfrom.subperm, fun hall => hfrom.perm ?_⟩
    rw [hlength, hall, ← hwindow, m.length_toList]
  · -- With and without the draw the memory shows the same log, and goes on from there.
    have hthere : m.toList = m.toList.rtake m.capacity := by
      rw [List.rtake, m.length_toList, Nat.sub_eq_zero_of_le m.size_le, List.drop_zero]
    have hdrawn : (m.sampleBy choose count).2.toList =
        m.toList.rtake (m.sampleBy choose count).2.capacity := by
      rw [m.capacity_sampleBy, m.toList_sampleBy]
      exact hthere
    rw [toList_serveAll hthere, toList_serveAll hdrawn, m.capacity_sampleBy]

/-- Three transitions in a memory of two, with a draw before the last. -/
def overflowing : List (Request ℕ) :=
  [.push ⟨#[1], 0, 1⟩, .push ⟨#[2], 0, 2⟩, .sample 1, .push ⟨#[3], 0, 3⟩]

/-- A batch of two holds the last two transitions, and one of three is refused. -/
theorem batches_from_window_overflowing :
    let m := (ofSeed 2 7).serveAll Generator.choose overflowing
    (∃ batch, (m.sample 2).1 = .ok batch ∧ batch.Perm [⟨#[2], 0, 2⟩, ⟨#[3], 0, 3⟩]) ∧
      m.sample 3 = (.error ⟨3, 2⟩, m) := by
  intro m
  obtain ⟨-, hsize, -, hsample⟩ :=
    batches_from_window Generator.chooses_choose 2 7 overflowing
  have htwo : m.size = 2 := hsize
  obtain ⟨-, -, hdrawn, -⟩ := hsample 2
  obtain ⟨-, hrefused, -⟩ := hsample 3
  obtain ⟨batch, hbatch, -, -, -, hperm⟩ := hdrawn htwo.ge
  refine ⟨⟨batch, hbatch, hperm htwo.symm⟩, ?_⟩
  have hthree := hrefused (htwo.trans_lt (by decide))
  rw [hsize] at hthree
  exact hthree

end DeferredReward.ReplayMemory
