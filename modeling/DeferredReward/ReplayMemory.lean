import DeferredReward.Generator.Choice
import DeferredReward.Transition

/-!
# The replay memory

The memory keeps the last transitions pushed into it, up to its capacity, and
draws batches of distinct ones. The transitions wait in two lists, the older
ones first in `older` and the newest first in `newer`, so that pushing and
forgetting the oldest take no walk through the memory. `toList` is the view
that all statements are about: the contents, oldest first.

Main statement: `toList_push`.
-/

namespace DeferredReward

/-- The last transitions up to a capacity, with the generator that draws batches. -/
structure ReplayMemory (α : Type) where
  /-- The largest number of transitions kept. -/
  capacity : Nat
  /-- The source of batches. -/
  generator : Generator
  /-- The older transitions, oldest first. -/
  older : List (Transition α)
  /-- The newer transitions, newest first. -/
  newer : List (Transition α)
  /-- The number of transitions. -/
  size : Nat
  /-- The number counts both lists. -/
  size_eq : size = older.length + newer.length
  /-- The capacity is kept. -/
  size_le : size ≤ capacity

/-- A batch that the memory cannot fill. -/
structure TooFewTransitions where
  /-- The size of the batch. -/
  requested : Nat
  /-- The number of transitions there are. -/
  available : Nat
  deriving DecidableEq, Repr

/-- The text of the error. -/
def TooFewTransitions.message (e : TooFewTransitions) : String :=
  s!"not enough transitions to sample: requested {e.requested}, available {e.available}"

namespace ReplayMemory

variable {α : Type}

/-- The empty memory of a capacity, with the generator of a seed. -/
def ofSeed (capacity : Nat) (seed : UInt64) : ReplayMemory α :=
  ⟨capacity, .ofSeed seed, [], [], 0, rfl, Nat.zero_le capacity⟩

/-- The contents, oldest first. -/
def toList (m : ReplayMemory α) : List (Transition α) := m.older ++ m.newer.reverse

theorem length_toList (m : ReplayMemory α) : m.toList.length = m.size := by
  rw [toList, List.length_append, List.length_reverse, m.size_eq]

/-- The memory with one more transition; a full one forgets its oldest. -/
def push (m : ReplayMemory α) (t : Transition α) : ReplayMemory α :=
  if room : m.size < m.capacity then
    { m with
      newer := t :: m.newer
      size := m.size + 1
      size_eq := by rw [m.size_eq, List.length_cons]; omega
      size_le := room }
  else
    match h : m.older with
    | _ :: older =>
      { m with
        older := older
        newer := t :: m.newer
        size_eq := by rw [m.size_eq, h, List.length_cons, List.length_cons]; omega }
    | [] =>
      { m with
        older := (m.newer.reverse ++ [t]).tail
        newer := []
        size_eq := by rw [m.size_eq, h]; simp }

/-- Pushing appends the transition and forgets what exceeds the capacity. -/
theorem toList_push (m : ReplayMemory α) (t : Transition α) :
    (m.push t).toList =
      if m.size < m.capacity then m.toList ++ [t] else (m.toList ++ [t]).tail := by
  unfold push
  split
  · simp [toList]
  · split
    · rename_i h
      simp [toList, h]
    · rename_i h
      simp [toList, h]

@[simp] theorem capacity_push (m : ReplayMemory α) (t : Transition α) :
    (m.push t).capacity = m.capacity := by
  unfold push
  split
  · rfl
  · split <;> rfl

/-- The memory after pushing transitions in order. -/
def pushAll (m : ReplayMemory α) (ts : List (Transition α)) : ReplayMemory α := ts.foldl push m

/-- A batch of the transitions at chosen positions, in the order in which they were
chosen, and the memory with its generator moved on. A batch larger than the memory is
refused without drawing. -/
def sampleBy (choose : Generator.Chooser) (m : ReplayMemory α) (count : Nat) :
    Except TooFewTransitions (List (Transition α)) × ReplayMemory α :=
  if m.size < count then (.error ⟨count, m.size⟩, m)
  else
    let (positions, generator) := choose m.size count m.generator
    let contents := m.toList.toArray
    (.ok (positions.filterMap fun i => contents[i]?), { m with generator })

/-- A batch of distinct transitions in the order in which they were drawn. -/
def sample (m : ReplayMemory α) (count : Nat) :
    Except TooFewTransitions (List (Transition α)) × ReplayMemory α :=
  m.sampleBy Generator.choose count

end ReplayMemory

end DeferredReward
