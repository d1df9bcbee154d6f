import DeferredReward.Fault

/-!
# Elementwise operations on matrices of related shapes

Two matrices can be combined when, for rows and for columns, their numbers are
equal or one of them is one: the single row or column is then used again for
each of the other's. Everything else is a fault.
-/

namespace DeferredReward.Matrix

variable {α β γ : Type}

/-- The size that two sizes combine to: the common one, or the other of one. -/
def joinSize? (a b : Nat) : Option Nat :=
  if a = b then some a else if a = 1 then some b else if b = 1 then some a else none

/-- The shape that two shapes combine to. -/
def joinShape? (a b : Shape) : Option Shape := do
  return ⟨← joinSize? a.rows b.rows, ← joinSize? a.cols b.cols⟩

@[simp] theorem joinSize?_self (a : Nat) : joinSize? a a = some a := by
  simp [joinSize?]

@[simp] theorem joinShape?_self (s : Shape) : joinShape? s s = some s := by
  simp [joinShape?]

/-- The position that is read at position `i` of the combined shape by a side
with `size` of them: a single one serves every position. -/
def reused (size i : Nat) : Nat := if size = 1 then 0 else i

/-- The function applied to the elements that meet when the shapes are combined. -/
@[specialize] def combine [Zero α] [Zero β] (f : α → β → γ) (a : Matrix α) (b : Matrix β) :
    Except Fault (Matrix γ) :=
  match joinShape? a.shape b.shape with
  | none => .error (.broadcast a.shape b.shape)
  | some shape => .ok (ofFn shape.rows shape.cols fun i j =>
      f (a.entry (reused a.rows i) (reused a.cols j))
        (b.entry (reused b.rows i) (reused b.cols j)))

/-- Combining fails exactly for shapes that do not combine. -/
theorem combine_eq_error_iff [Zero α] [Zero β] (f : α → β → γ) (a : Matrix α) (b : Matrix β)
    (e : Fault) :
    combine f a b = .error e ↔
      joinShape? a.shape b.shape = none ∧ e = .broadcast a.shape b.shape := by
  unfold combine
  cases joinShape? a.shape b.shape <;> simp [eq_comm]

theorem reused_eq_self {size i : Nat} (h : i < size) : reused size i = i := by
  unfold reused
  split <;> omega

/-- On equal shapes the elements at equal positions meet. -/
theorem combine_of_shape_eq [Zero α] [Zero β] (f : α → β → γ) {a : Matrix α}
    {b : Matrix β} (h : b.shape = a.shape) : combine f a b = .ok (zip f a b) := by
  obtain ⟨hr, hc⟩ : b.rows = a.rows ∧ b.cols = a.cols := by
    simpa [shape] using h
  rw [combine, h, joinShape?_self]
  refine congrArg Except.ok (ofFn_congr fun i j hi hj => ?_)
  change i < a.rows at hi
  change j < a.cols at hj
  rw [hr, hc, reused_eq_self hi, reused_eq_self hj]

end DeferredReward.Matrix
