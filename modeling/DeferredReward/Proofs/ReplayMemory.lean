import DeferredReward.Proofs.Generator.Choice
import DeferredReward.ReplayMemory
import Mathlib.Data.Fin.Basic
import Mathlib.Data.List.FinRange
import Mathlib.Data.List.Perm.Subperm
import Mathlib.Data.Set.List
import Mathlib.Tactic.Lift

/-!
# The replay memory as a window

The memory shows the end of everything that was ever pushed into it, as much of
it as its capacity allows. Drawing a batch leaves the window as it is, and
always fills a batch that is not larger than the window, from as many distinct
positions. How the positions are chosen does not matter for this.

Main statements: `toList_push_of_window`, `toList_pushAll_of_window`,
`drawnFrom_sampleBy`, `sample_of_le`.
-/

namespace DeferredReward.ReplayMemory

variable {α : Type}

/-- Pushing onto the window of a log gives the window of the longer log. -/
theorem toList_push_of_window {m : ReplayMemory α} {log : List (Transition α)}
    (h : m.toList = log.drop (log.length - m.capacity)) (t : Transition α) :
    (m.push t).toList = (log ++ [t]).drop ((log ++ [t]).length - m.capacity) := by
  have hsize := congrArg List.length h
  rw [length_toList, List.length_drop] at hsize
  rw [toList_push, List.length_append, List.length_singleton]
  split
  · rename_i hroom
    have hall : log.length - m.capacity = 0 := by omega
    have hstill : log.length + 1 - m.capacity = 0 := by omega
    rw [h, hall, hstill, List.drop_zero, List.drop_zero]
  · rename_i hfull
    have hle := m.size_le
    have hnext : log.length + 1 - m.capacity = log.length - m.capacity + 1 := by omega
    have hinside : log.length - m.capacity ≤ log.length := Nat.sub_le _ _
    rw [h, hnext, ← List.drop_drop, List.drop_append_of_le_length hinside, List.drop_one]

@[simp] theorem capacity_pushAll (m : ReplayMemory α) (ts : List (Transition α)) :
    (m.pushAll ts).capacity = m.capacity := by
  induction ts generalizing m with
  | nil => rfl
  | cons t ts ih => exact (ih (m.push t)).trans (capacity_push m t)

/-- A push makes the memory larger until it is full. -/
theorem size_push (m : ReplayMemory α) (t : Transition α) :
    (m.push t).size = min (m.size + 1) m.capacity := by
  have hle := m.size_le
  unfold push
  split
  · dsimp only
    omega
  · split <;>
    · dsimp only
      omega

/-- Pushing makes the memory larger until it is full. -/
theorem size_pushAll (m : ReplayMemory α) (ts : List (Transition α)) :
    (m.pushAll ts).size = min (m.size + ts.length) m.capacity := by
  induction ts generalizing m with
  | nil =>
    have hle := m.size_le
    change m.size = min (m.size + 0) m.capacity
    omega
  | cons t ts ih =>
    have hpush := m.size_push t
    have hrest := ih (m.push t)
    rw [capacity_push] at hrest
    change ((m.push t).pushAll ts).size = _
    rw [List.length_cons]
    omega

/-- Pushing never makes the memory smaller, whatever it forgets. -/
theorem size_le_size_pushAll (m : ReplayMemory α) (ts : List (Transition α)) :
    m.size ≤ (m.pushAll ts).size := by
  induction ts generalizing m with
  | nil => exact Nat.le_refl _
  | cons t ts ih =>
    have hle := m.size_le
    have hpush := m.size_push t
    have hrest := ih (m.push t)
    change m.size ≤ ((m.push t).pushAll ts).size
    omega

/-- Pushing several transitions onto the window of a log appends them to the log. -/
theorem toList_pushAll_of_window {m : ReplayMemory α} {log : List (Transition α)}
    (h : m.toList = log.drop (log.length - m.capacity)) (ts : List (Transition α)) :
    (m.pushAll ts).toList = (log ++ ts).drop ((log ++ ts).length - m.capacity) := by
  induction ts generalizing m log with
  | nil => rw [List.append_nil]; exact h
  | cons t ts ih =>
    have hpush : (m.push t).toList =
        (log ++ [t]).drop ((log ++ [t]).length - (m.push t).capacity) := by
      rw [capacity_push]
      exact toList_push_of_window h t
    have hrest := ih hpush
    rw [capacity_push, List.append_assoc, List.singleton_append] at hrest
    exact hrest

/-- What is in the memory after pushing was there before or has been pushed. -/
theorem mem_of_mem_pushAll {m : ReplayMemory α} {ts : List (Transition α)} {t : Transition α}
    (h : t ∈ (m.pushAll ts).toList) : t ∈ m.toList ∨ t ∈ ts := by
  have hwindow : m.toList = m.toList.drop (m.toList.length - m.capacity) := by
    have hle := m.size_le
    rw [length_toList, Nat.sub_eq_zero_of_le hle, List.drop_zero]
  rw [toList_pushAll_of_window hwindow] at h
  exact List.mem_append.1 (List.mem_of_mem_drop h)

/-- Drawing keeps the contents, whatever positions are chosen. -/
theorem toList_sampleBy (choose : Generator.Chooser) (m : ReplayMemory α) (count : Nat) :
    (m.sampleBy choose count).2.toList = m.toList := by
  unfold sampleBy
  split <;> rfl

/-- Drawing keeps the capacity, whatever positions are chosen. -/
theorem capacity_sampleBy (choose : Generator.Chooser) (m : ReplayMemory α) (count : Nat) :
    (m.sampleBy choose count).2.capacity = m.capacity := by
  unfold sampleBy
  split <;> rfl

theorem toList_sample (m : ReplayMemory α) (count : Nat) :
    (m.sample count).2.toList = m.toList :=
  m.toList_sampleBy Generator.choose count

theorem capacity_sample (m : ReplayMemory α) (count : Nat) :
    (m.sample count).2.capacity = m.capacity :=
  m.capacity_sampleBy Generator.choose count

/-- A memory that gives a sample is not smaller. -/
theorem not_lt_of_sample {m : ReplayMemory α} {count : Nat} {drawn : List (Transition α)}
    (h : (m.sample count).1 = .ok drawn) : ¬m.size < count := by
  intro hfew
  rw [sample, sampleBy, if_pos hfew] at h
  cases h

/-- The batch holds what a list has at distinct positions, in the order of drawing. -/
def DrawnFrom (contents batch : List (Transition α)) : Prop :=
  ∃ positions : List (Fin contents.length), positions.Nodup ∧ batch = positions.map contents.get

namespace DrawnFrom

variable {contents batch : List (Transition α)}

/-- No position is drawn twice, so nothing is drawn more often than the list has it. -/
theorem subperm (h : DrawnFrom contents batch) : batch.Subperm contents := by
  obtain ⟨positions, hnodup, rfl⟩ := h
  obtain ⟨ordered, hperm, hsublist⟩ := hnodup.subperm fun i _ => List.mem_finRange i
  have hinside := hsublist.map contents.get
  rw [List.map_get_finRange] at hinside
  exact ⟨ordered.map contents.get, hperm.map contents.get, hinside⟩

/-- A batch of the length of the list takes all of it. -/
theorem perm (h : DrawnFrom contents batch) (hlength : batch.length = contents.length) :
    batch.Perm contents :=
  h.subperm.perm_of_length_le hlength.ge

end DrawnFrom

/-- A batch that is not larger than the contents is drawn from distinct positions of them,
by any way to choose as many distinct positions. -/
theorem drawnFrom_sampleBy {choose : Generator.Chooser} (hchoose : Generator.Chooses choose)
    {m : ReplayMemory α} {count : Nat} (h : count ≤ m.size) :
    ∃ batch, (m.sampleBy choose count).1 = .ok batch ∧ batch.length = count ∧
      DrawnFrom m.toList batch := by
  obtain ⟨⟨hnodup, hbelow⟩, hlength⟩ := hchoose h m.generator
  have hsample : (m.sampleBy choose count).1 = .ok ((choose m.size count m.generator).1.filterMap
      fun i => m.toList.toArray[i]?) := by rw [sampleBy, if_neg (Nat.not_lt.2 h)]
  rw [hsample]
  generalize (choose m.size count m.generator).1 = positions at hnodup hbelow hlength
  -- Every chosen position is inside the contents, so that none is left out.
  rw [← m.length_toList] at hbelow
  lift positions to List (Fin m.toList.length) using hbelow
  rw [List.length_map] at hlength
  refine ⟨positions.map m.toList.get, ?_, ?_, positions, hnodup.of_map, rfl⟩
  · rw [List.filterMap_map, ← List.filterMap_eq_map]
    refine congrArg Except.ok (List.filterMap_congr fun i _ => ?_)
    simp
  · rw [List.length_map, hlength]

/-- A batch that is not larger than the contents is filled from them. -/
theorem sample_of_le {m : ReplayMemory α} {count : Nat} (h : count ≤ m.size) :
    ∃ drawn, (m.sample count).1 = .ok drawn ∧ drawn.length = count ∧
      ∀ t ∈ drawn, t ∈ m.toList := by
  obtain ⟨drawn, hdrawn, hlength, hfrom⟩ :=
    drawnFrom_sampleBy Generator.chooses_choose h
  exact ⟨drawn, hdrawn, hlength, fun _ ht => hfrom.subperm.subset ht⟩

end DeferredReward.ReplayMemory
