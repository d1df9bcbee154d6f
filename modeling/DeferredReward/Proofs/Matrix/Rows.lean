import DeferredReward.Proofs.Matrix.Pairing
import Mathlib.Algebra.BigOperators.Fin
import Mathlib.Tactic.Abel

/-!
# Rows on their own

What the operations of a forward pass do to a row of a matrix they do to this row
taken alone. In exact arithmetic the sums that a backward pass takes over all
rows of a batch are sums of what each row gives alone; when the rows are those of
other matrices times a factor, so is the result.

Main statements: `rowAt_product`, `rowAt_combine`, `IsScaled.product`,
`IsScaled.entry_transpose_product`, `total_eq_sum`.
-/

namespace DeferredReward

/-- An accumulated sum depends on its summands only. -/
theorem sumBelow_congr {α : Type} [Zero α] [Add α] {n : ℕ} {f g : ℕ → α}
    (h : ∀ k < n, f k = g k) : sumBelow n f = sumBelow n g := by
  induction n with
  | zero => rfl
  | succ n ih =>
    rw [sumBelow_succ, sumBelow_succ, h n n.lt_succ_self, ih fun k hk => h k (Nat.lt_succ_of_lt hk)]

namespace Matrix

variable {α β γ : Type}

/-- One row of a matrix, as a matrix of one row. -/
def rowAt [Zero α] (m : Matrix α) (r : ℕ) : Matrix α := ofFn 1 m.cols fun _ j => m.entry r j

@[simp] theorem shape_rowAt [Zero α] (m : Matrix α) (r : ℕ) : (m.rowAt r).shape = ⟨1, m.cols⟩ := rfl

theorem entry_rowAt [Zero α] (m : Matrix α) (r : ℕ) {j : ℕ} (hj : j < m.cols) :
    (m.rowAt r).entry 0 j = m.entry r j :=
  entry_ofFn _ Nat.one_pos hj

/-- Outside, too, a row reads as it does in the matrix. -/
theorem entry_zero_rowAt [Zero α] (m : Matrix α) (r j : ℕ) :
    (m.rowAt r).entry 0 j = m.entry r j := by
  by_cases hj : j < m.cols
  · exact entry_rowAt m r hj
  · have hrow : ¬(0 < (m.rowAt r).rows ∧ j < (m.rowAt r).cols) := fun h => hj h.2
    rw [entry_of_not_lt _ hrow, entry_of_not_lt m fun h => hj h.2]

/-- The first element of a row. -/
theorem data_zero_rowAt [Zero α] (m : Matrix α) (r : ℕ) :
    (m.rowAt r).data[0]? = if 0 < m.cols then some (m.entry r 0) else none := by
  by_cases hcols : 0 < m.cols
  · simp [rowAt, ofFn, hcols]
  · simp [rowAt, ofFn, Nat.eq_zero_of_not_pos hcols]

/-- A row is the matrix of one row with its elements. -/
theorem rowAt_eq [Zero α] {m row : Matrix α} {r : ℕ} (hrow : row.shape = ⟨1, m.cols⟩)
    (h : ∀ j < m.cols, m.entry r j = row.entry 0 j) : m.rowAt r = row := by
  obtain ⟨hrows, hcols⟩ := shape_eq_iff.1 hrow
  refine ext_entry hrows.symm hcols.symm fun i j hi hj => ?_
  rw [Nat.lt_one_iff.1 hi, entry_rowAt m r hj]
  exact h j hj

theorem rowAt_map [Zero α] [Zero β] (f : α → β) {m : Matrix α} {r : ℕ} (hr : r < m.rows) :
    (m.map f).rowAt r = (m.rowAt r).map f := by
  refine rowAt_eq rfl fun j hj => ?_
  rw [entry_map f m hr hj, entry_map f (m.rowAt r) Nat.one_pos hj, entry_rowAt m r hj]

theorem rowAt_zip [Zero α] [Zero β] [Zero γ] (f : α → β → γ) {a : Matrix α} {b : Matrix β}
    (h : b.cols = a.cols) {r : ℕ} (hr : r < a.rows) :
    (zip f a b).rowAt r = zip f (a.rowAt r) (b.rowAt r) := by
  refine rowAt_eq rfl fun j hj => ?_
  rw [entry_zip f a b hr hj, entry_zip f (a.rowAt r) _ Nat.one_pos hj, entry_rowAt a r hj,
    entry_rowAt b r (h.symm ▸ hj)]

theorem rowAt_zipRow [Zero α] [Zero β] [Zero γ] (f : α → β → γ) {a : Matrix α} (b : Matrix β)
    {r : ℕ} (hr : r < a.rows) : (zipRow f a b).rowAt r = zipRow f (a.rowAt r) b := by
  refine rowAt_eq rfl fun j hj => ?_
  rw [entry_zipRow f a b hr hj, entry_zipRow f (a.rowAt r) b Nat.one_pos hj, entry_rowAt a r hj]

/-- A row of a product is the product of the row. -/
theorem rowAt_product [Zero α] [Add α] [Mul α] {a : Matrix α} (b : Matrix α) {r : ℕ}
    (hr : r < a.rows) : (a.product b).rowAt r = (a.rowAt r).product b := by
  refine rowAt_eq rfl fun j hj => ?_
  rw [entry_product a b hr hj, entry_product (a.rowAt r) b Nat.one_pos hj]
  exact sumBelow_congr fun k hk => by rw [entry_rowAt a r hk]

/-- A matrix with one row combines with every row of the other. -/
theorem combine_of_one_row [Zero α] [Zero β] (f : α → β → γ) {a : Matrix α} {b : Matrix β}
    {cols : ℕ} (hb : b.rows = 1) (hcols : joinSize? a.cols b.cols = some cols) :
    combine f a b = .ok (ofFn a.rows cols fun i j =>
      f (a.entry i (reused a.cols j)) (b.entry 0 (reused b.cols j))) := by
  have hjoin : joinShape? a.shape b.shape = some ⟨a.rows, cols⟩ := by
    simp [joinShape?, shape, hb, hcols, joinSize?_one]
  rw [combine, hjoin]
  refine congrArg Except.ok (ofFn_congr fun i j hi hj => ?_)
  rw [reused_eq_self hi, hb]
  rfl

/-- A row of a combination with one row is the combination of the row. -/
theorem rowAt_combine [Zero α] [Zero β] [Zero γ] {f : α → β → γ} {a : Matrix α} {b : Matrix β}
    {c : Matrix γ} (hb : b.rows = 1) (h : combine f a b = .ok c) :
    c.rows = a.rows ∧ ∀ r < a.rows, combine f (a.rowAt r) b = .ok (c.rowAt r) := by
  cases hcols : joinSize? a.cols b.cols with
  | none =>
    have hjoin : joinShape? a.shape b.shape = none := by simp [joinShape?, shape, hcols]
    rw [combine, hjoin] at h
    cases h
  | some cols =>
    rw [combine_of_one_row f hb hcols] at h
    cases h
    refine ⟨rfl, fun r hr => ?_⟩
    have hrow : joinSize? (a.rowAt r).cols b.cols = some cols := hcols
    rw [combine_of_one_row f hb hrow]
    refine congrArg Except.ok (ofFn_congr fun i j hi hj => ?_)
    have hentry := entry_ofFn (fun i j =>
      f (a.entry i (reused a.cols j)) (b.entry 0 (reused b.cols j))) hr hj
    rw [Nat.lt_one_iff.1 hi, entry_zero_rowAt]
    exact hentry.symm

theorem rows_ofRows [Zero α] {rows : Array (Array α)} {m : Matrix α} (h : ofRows rows = .ok m) :
    m.rows = rows.size := by
  unfold ofRows at h
  split at h
  · cases h
  · split at h
    · cases h
      rfl
    · cases h

/-- The rows that a matrix has been stacked of. -/
theorem rowAt_ofRows [Zero α] {rows : Array (Array α)} {m : Matrix α} (h : ofRows rows = .ok m)
    {r : ℕ} (hr : r < rows.size) : m.rowAt r = row rows[r] := by
  unfold ofRows at h
  split at h
  · cases h
  · rename_i first _
    split at h
    · rename_i hsame
      cases h
      have hsize : rows[r].size = first.size := by
        have hrow := Array.all_eq_true'.1 hsame rows[r] (Array.getElem_mem hr)
        exact beq_iff_eq.1 hrow
      refine rowAt_eq (shape_eq_iff.2 ⟨rfl, hsize⟩) fun j hj => ?_
      have hj : j < rows[r].size := hsize.symm ▸ hj
      rw [entry_ofFn _ hr (hsize ▸ hj)]
      simp [entry, row, hr, hj]
    · cases h

/-- The rows of a column are its elements. -/
theorem rowAt_column [Zero α] (elements : Array α) {r : ℕ} (hr : r < elements.size) :
    (column elements).rowAt r = row #[elements[r]] := by
  refine rowAt_eq rfl fun j hj => ?_
  have hj : j = 0 := Nat.lt_one_iff.1 hj
  subst hj
  simp [entry, column, row, hr]

/-! ## Multiples of given rows -/

/-- The rows of a matrix are given ones times a factor. -/
structure IsScaled [Zero α] [Mul α] (factor : α) (m : Matrix α) (rows : ℕ → Matrix α) : Prop where
  shape : ∀ r < m.rows, (rows r).shape = ⟨1, m.cols⟩
  entry : ∀ r < m.rows, ∀ j < m.cols, m.entry r j = factor * (rows r).entry 0 j

namespace IsScaled

/-- Only the rows of the matrix count. -/
theorem congr [Zero α] [Mul α] {factor : α} {m : Matrix α} {rows rows' : ℕ → Matrix α}
    (h : IsScaled factor m rows) (hrows : ∀ r < m.rows, rows' r = rows r) :
    IsScaled factor m rows' where
  shape r hr := by rw [hrows r hr, h.shape r hr]
  entry r hr j hj := by rw [hrows r hr, h.entry r hr j hj]

variable [CommRing α] {factor : α} {m x : Matrix α} {rows : ℕ → Matrix α}

/-- The product from the right. -/
theorem product (h : IsScaled factor m rows) (b : Matrix α) :
    IsScaled factor (m.product b) fun r => (rows r).product b where
  shape r hr := by
    rw [shape_product, rows_of_shape (h.shape r hr)]
    rfl
  entry r hr j hj := by
    obtain ⟨hrows, hcols⟩ := shape_eq_iff.1 (h.shape r hr)
    rw [entry_product m b hr hj, entry_product (rows r) b (hrows ▸ Nat.one_pos) hj,
      sumBelow_eq_sum, sumBelow_eq_sum, hcols, Finset.mul_sum]
    refine Finset.sum_congr rfl fun k hk => ?_
    rw [h.entry r hr k (Finset.mem_range.1 hk), mul_assoc]

/-- The elementwise product from the left. -/
theorem zip_mul (h : IsScaled factor m rows) (hshape : m.shape = x.shape) :
    IsScaled factor (zip (· * ·) x m) fun r => zip (· * ·) (x.rowAt r) (rows r) where
  shape r hr := rfl
  entry r hr j hj := by
    obtain ⟨hmrows, hmcols⟩ := shape_eq_iff.1 hshape
    rw [entry_zip _ x m hr hj, entry_zip _ (x.rowAt r) _ Nat.one_pos hj, entry_rowAt x r hj,
      h.entry r (hmrows ▸ hr) j (hmcols ▸ hj)]
    ring

/-- The product that sums over the rows of a batch is a sum over its rows alone. -/
theorem entry_transpose_product (h : IsScaled factor m rows) (hrows : m.rows = x.rows) (k j : ℕ) :
    (x.transpose.product m).entry k j =
      factor * ∑ r ∈ Finset.range x.rows, ((x.rowAt r).transpose.product (rows r)).entry k j := by
  rw [Finset.mul_sum]
  by_cases hinside : k < x.cols ∧ j < m.cols
  · rw [entry_product _ m hinside.1 hinside.2, sumBelow_eq_sum]
    refine Finset.sum_congr rfl fun r hr => ?_
    have hr : r < x.rows := Finset.mem_range.1 hr
    have hcols := cols_of_shape (h.shape r (hrows ▸ hr))
    rw [entry_product _ (rows r) hinside.1 (hcols ▸ hinside.2), sumBelow_eq_sum]
    change _ = factor * ∑ i ∈ Finset.range 1, _
    rw [Finset.sum_range_one, entry_transpose x hinside.1 hr,
      entry_transpose (x.rowAt r) hinside.1 Nat.one_pos, entry_rowAt x r hinside.1,
      h.entry r (hrows ▸ hr) j hinside.2]
    ring
  · rw [entry_of_not_lt _ hinside, Finset.sum_eq_zero]
    intro r hr
    have hcols := cols_of_shape (h.shape r (hrows ▸ Finset.mem_range.1 hr))
    have houtside : ¬(k < ((x.rowAt r).transpose.product (rows r)).rows ∧
        j < ((x.rowAt r).transpose.product (rows r)).cols) := fun hin => hinside (hcols ▸ hin)
    rw [entry_of_not_lt _ houtside, mul_zero]

/-- The column sums of a batch are the sums of its rows. -/
theorem entry_columnSums (h : IsScaled factor m rows) (i j : ℕ) :
    m.columnSums.entry i j =
      factor * ∑ r ∈ Finset.range m.rows, (rows r).columnSums.entry i j := by
  rw [Finset.mul_sum]
  by_cases hinside : i < 1 ∧ j < m.cols
  · rw [Nat.lt_one_iff.1 hinside.1, Matrix.entry_columnSums m hinside.2, sumBelow_eq_sum]
    refine Finset.sum_congr rfl fun r hr => ?_
    have hr : r < m.rows := Finset.mem_range.1 hr
    obtain ⟨hone, hcols⟩ := shape_eq_iff.1 (h.shape r hr)
    rw [Matrix.entry_columnSums (rows r) (hcols ▸ hinside.2), sumBelow_eq_sum, hone,
      Finset.sum_range_one, h.entry r hr j hinside.2]
  · rw [entry_of_not_lt _ hinside, Finset.sum_eq_zero]
    intro r hr
    have hcols := cols_of_shape (h.shape r (Finset.mem_range.1 hr))
    have houtside : ¬(i < (rows r).columnSums.rows ∧ j < (rows r).columnSums.cols) :=
      fun hin => hinside (hcols ▸ hin)
    rw [entry_of_not_lt _ houtside, mul_zero]

end IsScaled

end Matrix

/-- Adding eights of values moves their sum into the running sums. -/
theorem LaneSums.joined_addEights [AddCommMonoid α] (s : LaneSums α) (values : List α) :
    (s.addEights values).1.joined + (s.addEights values).2.sum = s.joined + values.sum := by
  fun_induction LaneSums.addEights s values with
  | case1 s a b c d e f g h rest ih =>
    rw [ih, LaneSums.joined, LaneSums.joined]
    simp only [List.sum_cons]
    abel
  | case2 s rest => rfl

/-- Where addition is associative and commutative the lanes make no difference. -/
theorem laneSum_eq_sum [AddCommMonoid α] (values : List α) : laneSum values = values.sum := by
  have hempty : (LaneSums.empty : LaneSums α).joined = 0 := by
    simp only [LaneSums.joined, LaneSums.empty, add_zero]
  calc laneSum values
      = (LaneSums.empty.addEights values).2.foldl (· + ·)
          ((LaneSums.empty.addEights values).1.joined + 0) := by rw [add_zero]; rfl
    _ = (LaneSums.empty.addEights values).1.joined +
          (LaneSums.empty.addEights values).2.foldl (· + ·) 0 := List.foldl_assoc
    _ = (LaneSums.empty.addEights values).1.joined +
          (LaneSums.empty.addEights values).2.sum := by rw [← List.sum_eq_foldl]
    _ = values.sum := by rw [LaneSums.joined_addEights, hempty, zero_add]

namespace Matrix

/-- The total is the sum of the elements, row by row. -/
theorem total_eq_sum [AddCommMonoid α] (m : Matrix α) :
    m.total = ∑ i ∈ Finset.range m.rows, ∑ j ∈ Finset.range m.cols, m.entry i j := by
  have hflat : m.total = ∑ k ∈ Finset.range (m.rows * m.cols), m.data.toList.getD k 0 := by
    rw [total, laneSum_eq_sum, ← Fin.sum_univ_getElem, ← m.size_data,
      ← Array.length_toList, Finset.sum_range]
    refine Finset.sum_congr rfl fun k _ => ?_
    simp
  have hrows : ∀ (f : ℕ → α) (rows : ℕ), ∑ k ∈ Finset.range (rows * m.cols), f k =
      ∑ i ∈ Finset.range rows, ∑ j ∈ Finset.range m.cols, f (i * m.cols + j) := by
    intro f rows
    induction rows with
    | zero => simp
    | succ rows ih => rw [Nat.succ_mul, Finset.sum_range_add, ih, Finset.sum_range_succ]
  rw [hflat, hrows]
  refine Finset.sum_congr rfl fun i hi => Finset.sum_congr rfl fun j hj => ?_
  have hinside : i < m.rows ∧ j < m.cols := ⟨Finset.mem_range.1 hi, Finset.mem_range.1 hj⟩
  have hindex : i * m.cols + j < m.data.size := m.size_data ▸ index_lt hinside.1 hinside.2
  rw [entry, dif_pos hinside]
  simp [hindex]

/-- The total of a column is the sum of its elements. -/
theorem total_column [AddCommMonoid α] {m : Matrix α} (h : m.cols = 1) :
    m.total = ∑ r ∈ Finset.range m.rows, m.entry r 0 := by
  rw [total_eq_sum, h]
  exact Finset.sum_congr rfl fun r _ => Finset.sum_range_one _

end Matrix

end DeferredReward
