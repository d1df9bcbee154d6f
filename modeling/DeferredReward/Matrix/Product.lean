import DeferredReward.Fault

/-!
# Products and column sums

A product element is accumulated over the inner index in increasing order,
from zero, in the row of the left and the column of the right factor alone.
-/

namespace DeferredReward.Matrix

variable {α : Type}

/-- The product of two matrices whose inner sizes agree. -/
@[specialize] def mul [Zero α] [Add α] [Mul α] (a b : Matrix α) : Except Fault (Matrix α) :=
  if a.cols = b.rows then
    .ok (ofFn a.rows b.cols fun i j => sumBelow a.cols fun k => a.entry i k * b.entry k j)
  else .error (.product a.shape b.shape)

/-- The product exists exactly for equal inner sizes. -/
theorem mul_eq_error_iff [Zero α] [Add α] [Mul α] (a b : Matrix α) (e : Fault) :
    a.mul b = .error e ↔ a.cols ≠ b.rows ∧ e = .product a.shape b.shape := by
  unfold mul
  split <;> simp_all [eq_comm]

/-- The sums of the columns as a matrix with one row. -/
@[specialize] def columnSums [Zero α] [Add α] (m : Matrix α) : Matrix α :=
  ofFn 1 m.cols fun _ j => sumBelow m.rows fun i => m.entry i j

@[simp] theorem shape_columnSums [Zero α] [Add α] (m : Matrix α) :
    m.columnSums.shape = ⟨1, m.cols⟩ := rfl

end DeferredReward.Matrix
