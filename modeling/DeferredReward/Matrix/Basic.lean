import DeferredReward.LaneSum

/-!
# Matrices

A matrix keeps its elements row by row in one array, of exactly as many
elements as its shape says. Every operation of the library is written through
`ofFn` and `entry`, so that two lemmas describe it: the shape of the result and
its elements. Matrices without rows or without columns are ordinary matrices.

Main statements: `entry_ofFn`, and `ext_entry`, which says that the shape and
the elements determine a matrix.
-/

namespace DeferredReward

/-- The number of rows and columns of a matrix. -/
structure Shape where
  rows : Nat
  cols : Nat
  deriving DecidableEq, Repr, Inhabited

/-- A matrix with its elements in one array, row after row. -/
structure Matrix (α : Type) where
  /-- The number of rows. -/
  rows : Nat
  /-- The number of columns. -/
  cols : Nat
  /-- The elements, row after row. -/
  data : Array α
  /-- There is one element for each position. -/
  size_data : data.size = rows * cols

namespace Matrix

variable {α β γ : Type}

/-- The number of rows and columns. -/
def shape (m : Matrix α) : Shape := ⟨m.rows, m.cols⟩

/-- The number of elements. -/
def size (m : Matrix α) : Nat := m.rows * m.cols

/-- The place of row `i`, column `j` in the array. -/
theorem index_lt {rows cols i j : Nat} (hi : i < rows) (hj : j < cols) :
    i * cols + j < rows * cols := by
  have h : (i + 1) * cols ≤ rows * cols := Nat.mul_le_mul_right cols hi
  rw [Nat.succ_mul] at h
  omega

/-- The element of row `i`, column `j`; zero outside the matrix. -/
@[inline] def entry [Zero α] (m : Matrix α) (i j : Nat) : α :=
  if h : i < m.rows ∧ j < m.cols then
    have inside : i * m.cols + j < m.data.size := m.size_data ▸ index_lt h.1 h.2
    m.data[i * m.cols + j]
  else 0

/-- The matrix of the given shape whose elements are the values of a function. -/
@[specialize] def ofFn (rows cols : Nat) (f : Nat → Nat → α) : Matrix α where
  rows := rows
  cols := cols
  data := Array.ofFn (n := rows * cols) fun k => f (k.val / cols) (k.val % cols)
  size_data := Array.size_ofFn

@[simp] theorem rows_ofFn (rows cols : Nat) (f : Nat → Nat → α) :
    (ofFn rows cols f).rows = rows := rfl

@[simp] theorem cols_ofFn (rows cols : Nat) (f : Nat → Nat → α) :
    (ofFn rows cols f).cols = cols := rfl

@[simp] theorem shape_ofFn (rows cols : Nat) (f : Nat → Nat → α) :
    (ofFn rows cols f).shape = ⟨rows, cols⟩ := rfl

/-- Inside the shape, the elements are the values of the function. -/
theorem entry_ofFn [Zero α] {rows cols i j : Nat} (f : Nat → Nat → α)
    (hi : i < rows) (hj : j < cols) : (ofFn rows cols f).entry i j = f i j := by
  have hpos : 0 < cols := Nat.lt_of_le_of_lt (Nat.zero_le j) hj
  have hdiv : (i * cols + j) / cols = i := by
    rw [Nat.add_comm, Nat.add_mul_div_right _ _ hpos, Nat.div_eq_of_lt hj, Nat.zero_add]
  have hmod : (i * cols + j) % cols = j := by
    rw [Nat.add_comm, Nat.add_mul_mod_self_right, Nat.mod_eq_of_lt hj]
  simp [entry, ofFn, hi, hj, hdiv, hmod]

/-- Outside the shape every element reads as zero. -/
theorem entry_of_not_lt [Zero α] (m : Matrix α) {i j : Nat} (h : ¬(i < m.rows ∧ j < m.cols)) :
    m.entry i j = 0 := by
  simp [entry, h]

/-- Two matrices of one shape with the same elements are the same matrix. -/
theorem ext_entry [Zero α] {a b : Matrix α} (hr : a.rows = b.rows) (hc : a.cols = b.cols)
    (h : ∀ i j, i < a.rows → j < a.cols → a.entry i j = b.entry i j) : a = b := by
  obtain ⟨r, c, da, ha⟩ := a
  obtain ⟨r', c', db, hb⟩ := b
  dsimp only at hr hc
  subst hr hc
  suffices hd : da = db by subst hd; rfl
  apply Array.ext (ha.trans hb.symm)
  intro k hk hk'
  rw [ha] at hk
  have hpos : 0 < c := by
    rcases Nat.eq_zero_or_pos c with h0 | h0
    · subst h0; omega
    · exact h0
  have hi : k / c < r := Nat.div_lt_of_lt_mul (Nat.mul_comm r c ▸ hk)
  have hj : k % c < c := Nat.mod_lt k hpos
  have hidx : k / c * c + k % c = k := by
    rw [Nat.mul_comm]; exact Nat.div_add_mod k c
  simpa [entry, hi, hj, hidx] using h (k / c) (k % c) hi hj

/-- The values inside the shape determine the matrix of a function. -/
theorem ofFn_congr {rows cols : Nat} {f g : Nat → Nat → α}
    (h : ∀ i j, i < rows → j < cols → f i j = g i j) : ofFn rows cols f = ofFn rows cols g := by
  unfold ofFn
  congr 1
  refine congrArg Array.ofFn (funext fun ⟨k, hk⟩ => ?_)
  have hpos : 0 < cols := by
    rcases Nat.eq_zero_or_pos cols with h0 | h0
    · subst h0; omega
    · exact h0
  exact h _ _ (Nat.div_lt_of_lt_mul (Nat.mul_comm rows cols ▸ hk)) (Nat.mod_lt _ hpos)

/-- The matrix of zeros. -/
def zeros [Zero α] (shape : Shape) : Matrix α := ofFn shape.rows shape.cols fun _ _ => 0

@[simp] theorem shape_zeros [Zero α] (shape : Shape) : (zeros shape : Matrix α).shape = shape := rfl

/-- The elements listed in `elements`, when there are as many as the shape needs. -/
def ofArray? (shape : Shape) (elements : Array α) : Option (Matrix α) :=
  if h : elements.size = shape.rows * shape.cols then
    some ⟨shape.rows, shape.cols, elements, h⟩
  else none

/-- The matrix with one row. -/
def row (elements : Array α) : Matrix α :=
  ⟨1, elements.size, elements, (Nat.one_mul _).symm⟩

/-- The matrix with one column. -/
def column (elements : Array α) : Matrix α :=
  ⟨elements.size, 1, elements, (Nat.mul_one _).symm⟩

/-- The function applied to every element. -/
@[specialize] def map (f : α → β) (m : Matrix α) : Matrix β where
  rows := m.rows
  cols := m.cols
  data := m.data.map f
  size_data := by rw [Array.size_map, m.size_data]

@[simp] theorem rows_map (f : α → β) (m : Matrix α) : (m.map f).rows = m.rows := rfl

@[simp] theorem cols_map (f : α → β) (m : Matrix α) : (m.map f).cols = m.cols := rfl

@[simp] theorem shape_map (f : α → β) (m : Matrix α) : (m.map f).shape = m.shape := rfl

theorem entry_map [Zero α] [Zero β] (f : α → β) (m : Matrix α) {i j : Nat}
    (hi : i < m.rows) (hj : j < m.cols) : (m.map f).entry i j = f (m.entry i j) := by
  simp [entry, map, hi, hj]

/-- The function applied to the elements at the same positions of two matrices.
The shape is that of the first. -/
@[specialize] def zip [Zero α] [Zero β] (f : α → β → γ) (a : Matrix α) (b : Matrix β) : Matrix γ :=
  ofFn a.rows a.cols fun i j => f (a.entry i j) (b.entry i j)

@[simp] theorem shape_zip [Zero α] [Zero β] (f : α → β → γ) (a : Matrix α) (b : Matrix β) :
    (zip f a b).shape = a.shape := rfl

theorem entry_zip [Zero α] [Zero β] [Zero γ] (f : α → β → γ) (a : Matrix α) (b : Matrix β)
    {i j : Nat} (hi : i < a.rows) (hj : j < a.cols) :
    (zip f a b).entry i j = f (a.entry i j) (b.entry i j) :=
  entry_ofFn _ hi hj

/-- Rows and columns exchanged. -/
@[specialize] def transpose [Zero α] (m : Matrix α) : Matrix α :=
  ofFn m.cols m.rows fun i j => m.entry j i

@[simp] theorem shape_transpose [Zero α] (m : Matrix α) :
    m.transpose.shape = ⟨m.cols, m.rows⟩ := rfl

/-- The sum of all elements, which lie side by side row after row. -/
@[specialize] def total [Zero α] [Add α] (m : Matrix α) : α := laneSum m.data.toList

end Matrix

/-- `f 0 + f 1 + … + f (n - 1)`, accumulated in this order from zero. -/
@[specialize] def sumBelow {α : Type} [Zero α] [Add α] (n : Nat) (f : Nat → α) : α :=
  n.fold (fun k _ sum => sum + f k) 0

@[simp] theorem sumBelow_zero {α : Type} [Zero α] [Add α] (f : Nat → α) : sumBelow 0 f = 0 := rfl

theorem sumBelow_succ {α : Type} [Zero α] [Add α] (n : Nat) (f : Nat → α) :
    sumBelow (n + 1) f = sumBelow n f + f n := rfl

end DeferredReward
