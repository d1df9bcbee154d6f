import DeferredReward.Matrix.Broadcast
import DeferredReward.Matrix.Product
import DeferredReward.Matrix.Stack
import Mathlib.Data.Nat.Notation

/-!
# Results of matrix operations

What a product, a repeated row and an elementwise combination give when the
shapes fit: no fault, and the elements of the result one by one.
-/

namespace DeferredReward.Matrix

variable {α β γ : Type}

theorem shape_eq_iff {m : Matrix α} {rows cols : ℕ} :
    m.shape = ⟨rows, cols⟩ ↔ m.rows = rows ∧ m.cols = cols := by
  rw [shape, Shape.mk.injEq]

theorem rows_of_shape {m : Matrix α} {rows cols : ℕ} (h : m.shape = ⟨rows, cols⟩) :
    m.rows = rows :=
  (shape_eq_iff.1 h).1

theorem cols_of_shape {m : Matrix α} {rows cols : ℕ} (h : m.shape = ⟨rows, cols⟩) :
    m.cols = cols :=
  (shape_eq_iff.1 h).2

/-- Every element of a matrix of zeros is zero, and so is everything outside. -/
theorem entry_zeros [Zero α] (shape : Shape) (i j : ℕ) :
    (zeros shape : Matrix α).entry i j = 0 := by
  by_cases h : i < shape.rows ∧ j < shape.cols
  · exact entry_ofFn _ h.1 h.2
  · exact entry_of_not_lt _ h

/-- The product of two matrices whose inner sizes agree, as a matrix. -/
def product [Zero α] [Add α] [Mul α] (a b : Matrix α) : Matrix α :=
  ofFn a.rows b.cols fun i j => sumBelow a.cols fun k => a.entry i k * b.entry k j

@[simp] theorem shape_product [Zero α] [Add α] [Mul α] (a b : Matrix α) :
    (a.product b).shape = ⟨a.rows, b.cols⟩ := rfl

theorem mul_eq_ok [Zero α] [Add α] [Mul α] {a b : Matrix α} (h : a.cols = b.rows) :
    a.mul b = .ok (a.product b) := by
  rw [mul, if_pos h]
  rfl

theorem entry_product [Zero α] [Add α] [Mul α] (a b : Matrix α) {i j : ℕ} (hi : i < a.rows)
    (hj : j < b.cols) :
    (a.product b).entry i j = sumBelow a.cols fun k => a.entry i k * b.entry k j :=
  entry_ofFn _ hi hj

theorem entry_transpose [Zero α] (m : Matrix α) {i j : ℕ} (hi : i < m.cols) (hj : j < m.rows) :
    m.transpose.entry i j = m.entry j i :=
  entry_ofFn _ hi hj

theorem entry_columnSums [Zero α] [Add α] (m : Matrix α) {j : ℕ} (hj : j < m.cols) :
    m.columnSums.entry 0 j = sumBelow m.rows fun i => m.entry i j :=
  entry_ofFn _ Nat.one_pos hj

/-- The function applied to the elements of a matrix and of the one row that
serves all of its rows. -/
def zipRow [Zero α] [Zero β] (f : α → β → γ) (a : Matrix α) (b : Matrix β) : Matrix γ :=
  ofFn a.rows a.cols fun i j => f (a.entry i j) (b.entry 0 j)

@[simp] theorem shape_zipRow [Zero α] [Zero β] (f : α → β → γ) (a : Matrix α) (b : Matrix β) :
    (zipRow f a b).shape = a.shape := rfl

theorem entry_zipRow [Zero α] [Zero β] [Zero γ] (f : α → β → γ) (a : Matrix α) (b : Matrix β)
    {i j : ℕ} (hi : i < a.rows) (hj : j < a.cols) :
    (zipRow f a b).entry i j = f (a.entry i j) (b.entry 0 j) :=
  entry_ofFn _ hi hj

theorem joinSize?_one (a : ℕ) : joinSize? a 1 = some a := by
  by_cases h : a = 1
  · rw [h, joinSize?_self]
  · rw [joinSize?, if_neg h, if_neg h, if_pos rfl]

/-- One row of as many columns combines with every matrix. -/
theorem combine_row [Zero α] [Zero β] (f : α → β → γ) {a : Matrix α} {b : Matrix β}
    (h : b.shape = ⟨1, a.cols⟩) : combine f a b = .ok (zipRow f a b) := by
  obtain ⟨hrows, hcols⟩ := shape_eq_iff.1 h
  have hjoin : joinShape? a.shape b.shape = some a.shape := by
    rw [h]
    simp only [joinShape?, shape, joinSize?_one, joinSize?_self]
    rfl
  rw [combine, hjoin]
  refine congrArg Except.ok (ofFn_congr fun i j hi hj => ?_)
  change i < a.rows at hi
  change j < a.cols at hj
  rw [reused_eq_self hi, reused_eq_self hj, hrows, hcols, reused_eq_self hj]
  rfl

/-- Rows of one length form a matrix, if there are any. -/
theorem ofRows_of_size [Zero α] {rows : Array (Array α)} {width : ℕ} (hne : rows.size ≠ 0)
    (hwidth : ∀ row ∈ rows, row.size = width) :
    ∃ m, ofRows rows = .ok m ∧ m.shape = ⟨rows.size, width⟩ := by
  have hpos : 0 < rows.size := Nat.pos_of_ne_zero hne
  have hfirst : rows[0]? = some rows[0] := Array.getElem?_eq_getElem hpos
  have hsize : rows[0].size = width := hwidth _ (Array.getElem_mem hpos)
  have hall : (rows.all fun row => row.size == rows[0].size) = true := by
    rw [Array.all_eq_true']
    intro row hrow
    rw [hwidth row hrow, hsize, beq_self_eq_true]
  refine ⟨ofFn rows.size rows[0].size fun i j => (rows.getD i #[]).getD j 0, ?_, ?_⟩
  · rw [ofRows, hfirst]
    exact if_pos hall
  · rw [shape_ofFn, hsize]

end DeferredReward.Matrix
