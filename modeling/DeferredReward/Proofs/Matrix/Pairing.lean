import DeferredReward.Parameters
import DeferredReward.Proofs.Matrix.Operations
import Mathlib.Algebra.BigOperators.Ring.Finset
import Mathlib.Algebra.BigOperators.Group.Finset.Sigma
import Mathlib.Tactic.Ring

/-!
# The pairing of matrices

The sum of the products of the elements at equal positions, over exact
arithmetic. A factor on one side of the pairing can be moved to the other side
transposed, and a row that is repeated on one side meets the column sums of the
other. These are the laws by which an error passes back through a dense layer.

Main statements: `pairing_product_transpose`, `pairing_transpose_product`,
`pairing_zipRow_add`.
-/

namespace DeferredReward

/-- The accumulated sum is the sum over the range. -/
theorem sumBelow_eq_sum {α : Type} [AddCommMonoid α] (n : ℕ) (f : ℕ → α) :
    sumBelow n f = ∑ i ∈ Finset.range n, f i := by
  induction n with
  | zero => rfl
  | succ n ih => rw [sumBelow_succ, Finset.sum_range_succ, ih]

namespace Matrix

variable {α : Type}

/-- The sum of the products of the elements of `a` and the elements of `b` at
the same positions. -/
def pairing [Zero α] [Add α] [Mul α] (a b : Matrix α) : α :=
  sumBelow a.rows fun i => sumBelow a.cols fun j => a.entry i j * b.entry i j

variable [CommRing α]

theorem pairing_eq_sum (a b : Matrix α) : a.pairing b =
    ∑ i ∈ Finset.range a.rows, ∑ j ∈ Finset.range a.cols, a.entry i j * b.entry i j := by
  rw [pairing, sumBelow_eq_sum]
  exact Finset.sum_congr rfl fun i _ => sumBelow_eq_sum _ _

/-- The pairing of matrices of known elements. -/
theorem pairing_eq_of_entries {a b : Matrix α} {rows cols : ℕ} (ha : a.shape = ⟨rows, cols⟩)
    {f g : ℕ → ℕ → α} (hf : ∀ i j, i < rows → j < cols → a.entry i j = f i j)
    (hg : ∀ i j, i < rows → j < cols → b.entry i j = g i j) :
    a.pairing b = ∑ i ∈ Finset.range rows, ∑ j ∈ Finset.range cols, f i j * g i j := by
  obtain ⟨hrows, hcols⟩ := shape_eq_iff.1 ha
  rw [pairing_eq_sum, hrows, hcols]
  refine Finset.sum_congr rfl fun i hi => Finset.sum_congr rfl fun j hj => ?_
  rw [hf i j (Finset.mem_range.1 hi) (Finset.mem_range.1 hj),
    hg i j (Finset.mem_range.1 hi) (Finset.mem_range.1 hj)]

/-- A matrix of zeros pairs to zero. -/
theorem pairing_zeros (a : Matrix α) : a.pairing (zeros a.shape) = 0 := by
  rw [pairing_eq_sum]
  refine Finset.sum_eq_zero fun i hi => Finset.sum_eq_zero fun j hj => ?_
  have hzero : (zeros a.shape : Matrix α).entry i j = 0 :=
    entry_ofFn _ (Finset.mem_range.1 hi) (Finset.mem_range.1 hj)
  rw [hzero, mul_zero]

/-- The pairing with a sum is the sum of the pairings. -/
theorem pairing_zip_add {a b c : Matrix α} (hb : b.shape = a.shape) :
    a.pairing (zip (· + ·) b c) = a.pairing b + a.pairing c := by
  obtain ⟨hrows, hcols⟩ := shape_eq_iff.1 hb
  rw [pairing_eq_sum, pairing_eq_sum, pairing_eq_sum, ← Finset.sum_add_distrib]
  refine Finset.sum_congr rfl fun i hi => ?_
  rw [← Finset.sum_add_distrib]
  refine Finset.sum_congr rfl fun j hj => ?_
  have hi : i < b.rows := hrows ▸ Finset.mem_range.1 hi
  have hj : j < b.cols := hcols ▸ Finset.mem_range.1 hj
  rw [entry_zip _ b c hi hj, mul_add]

/-- An elementwise factor can stand on either side. -/
theorem pairing_zip_mul {d a b : Matrix α} (ha : a.shape = d.shape) :
    (zip (· * ·) d a).pairing b = a.pairing (zip (· * ·) d b) := by
  obtain ⟨hrows, hcols⟩ := shape_eq_iff.1 ha
  have hzip : (zip (· * ·) d a).shape = ⟨d.rows, d.cols⟩ := rfl
  have ha : a.shape = ⟨d.rows, d.cols⟩ := shape_eq_iff.2 ⟨hrows, hcols⟩
  rw [pairing_eq_of_entries hzip (fun i j hi hj => entry_zip _ d a hi hj) fun _ _ _ _ => rfl,
    pairing_eq_of_entries ha (fun _ _ _ _ => rfl) fun i j hi hj => entry_zip _ d b hi hj]
  refine Finset.sum_congr rfl fun i _ => Finset.sum_congr rfl fun j _ => ?_
  ring

/-- `⟨a · wᵀ, t⟩ = ⟨a, t · w⟩`. -/
theorem pairing_product_transpose {a w t : Matrix α} {rows inner outer : ℕ}
    (ha : a.shape = ⟨rows, outer⟩) (hw : w.shape = ⟨inner, outer⟩)
    (ht : t.shape = ⟨rows, inner⟩) :
    (a.product w.transpose).pairing t = a.pairing (t.product w) := by
  obtain ⟨harows, hacols⟩ := shape_eq_iff.1 ha
  obtain ⟨hwrows, hwcols⟩ := shape_eq_iff.1 hw
  obtain ⟨htrows, htcols⟩ := shape_eq_iff.1 ht
  have hleft : ∀ i k, i < rows → k < inner → (a.product w.transpose).entry i k =
      ∑ j ∈ Finset.range outer, a.entry i j * w.entry k j := by
    intro i k hi hk
    rw [entry_product _ _ (harows ▸ hi) (show k < w.rows from hwrows ▸ hk), sumBelow_eq_sum, hacols]
    refine Finset.sum_congr rfl fun j hj => ?_
    rw [entry_transpose _ (hwcols ▸ Finset.mem_range.1 hj) (hwrows ▸ hk)]
  have hright : ∀ i j, i < rows → j < outer → (t.product w).entry i j =
      ∑ k ∈ Finset.range inner, t.entry i k * w.entry k j := by
    intro i j hi hj
    rw [entry_product _ _ (htrows ▸ hi) (hwcols ▸ hj), sumBelow_eq_sum, htcols]
  have hshape : (a.product w.transpose).shape = ⟨rows, inner⟩ :=
    (shape_product a w.transpose).trans (congrArg₂ Shape.mk harows hwrows)
  rw [pairing_eq_of_entries hshape hleft fun _ _ _ _ => rfl,
    pairing_eq_of_entries ha (fun _ _ _ _ => rfl) hright]
  refine Finset.sum_congr rfl fun i _ => ?_
  simp only [Finset.sum_mul, Finset.mul_sum]
  rw [Finset.sum_comm]
  refine Finset.sum_congr rfl fun j _ => Finset.sum_congr rfl fun k _ => ?_
  ring

/-- `⟨xᵀ · a, d⟩ = ⟨a, x · d⟩`. -/
theorem pairing_transpose_product {x a d : Matrix α} {rows inner outer : ℕ}
    (hx : x.shape = ⟨rows, inner⟩) (ha : a.shape = ⟨rows, outer⟩)
    (hd : d.shape = ⟨inner, outer⟩) :
    (x.transpose.product a).pairing d = a.pairing (x.product d) := by
  obtain ⟨hxrows, hxcols⟩ := shape_eq_iff.1 hx
  obtain ⟨harows, hacols⟩ := shape_eq_iff.1 ha
  obtain ⟨_, hdcols⟩ := shape_eq_iff.1 hd
  have hleft : ∀ k j, k < inner → j < outer → (x.transpose.product a).entry k j =
      ∑ i ∈ Finset.range rows, x.entry i k * a.entry i j := by
    intro k j hk hj
    rw [entry_product _ _ (show k < x.cols from hxcols ▸ hk) (hacols ▸ hj), sumBelow_eq_sum]
    change ∑ i ∈ Finset.range x.rows, _ = _
    rw [hxrows]
    refine Finset.sum_congr rfl fun i hi => ?_
    rw [entry_transpose _ (hxcols ▸ hk) (hxrows ▸ Finset.mem_range.1 hi)]
  have hright : ∀ i j, i < rows → j < outer → (x.product d).entry i j =
      ∑ k ∈ Finset.range inner, x.entry i k * d.entry k j := by
    intro i j hi hj
    rw [entry_product _ _ (hxrows ▸ hi) (hdcols ▸ hj), sumBelow_eq_sum, hxcols]
  have hshape : (x.transpose.product a).shape = ⟨inner, outer⟩ :=
    (shape_product x.transpose a).trans (congrArg₂ Shape.mk hxcols hacols)
  rw [pairing_eq_of_entries hshape hleft fun _ _ _ _ => rfl,
    pairing_eq_of_entries ha (fun _ _ _ _ => rfl) hright]
  simp only [Finset.sum_mul, Finset.mul_sum]
  calc ∑ k ∈ Finset.range inner, ∑ j ∈ Finset.range outer, ∑ i ∈ Finset.range rows,
        x.entry i k * a.entry i j * d.entry k j
      = ∑ k ∈ Finset.range inner, ∑ i ∈ Finset.range rows, ∑ j ∈ Finset.range outer,
          x.entry i k * a.entry i j * d.entry k j :=
        Finset.sum_congr rfl fun k _ => Finset.sum_comm
    _ = ∑ i ∈ Finset.range rows, ∑ k ∈ Finset.range inner, ∑ j ∈ Finset.range outer,
          x.entry i k * a.entry i j * d.entry k j := Finset.sum_comm
    _ = ∑ i ∈ Finset.range rows, ∑ j ∈ Finset.range outer, ∑ k ∈ Finset.range inner,
          x.entry i k * a.entry i j * d.entry k j :=
        Finset.sum_congr rfl fun i _ => Finset.sum_comm
    _ = ∑ i ∈ Finset.range rows, ∑ j ∈ Finset.range outer, ∑ k ∈ Finset.range inner,
          a.entry i j * (x.entry i k * d.entry k j) := by
        refine Finset.sum_congr rfl fun i _ => Finset.sum_congr rfl fun j _ =>
          Finset.sum_congr rfl fun k _ => ?_
        ring

/-- A row added to every row of a sum pairs with the column sums. -/
theorem pairing_zipRow_add {a c d : Matrix α} {rows cols : ℕ} (ha : a.shape = ⟨rows, cols⟩)
    (hc : c.shape = ⟨rows, cols⟩) :
    a.pairing (zipRow (· + ·) c d) = a.pairing c + a.columnSums.pairing d := by
  obtain ⟨harows, hacols⟩ := shape_eq_iff.1 ha
  obtain ⟨hcrows, hccols⟩ := shape_eq_iff.1 hc
  have hsum : ∀ i j, i < rows → j < cols →
      (zipRow (· + ·) c d).entry i j = c.entry i j + d.entry 0 j :=
    fun i j hi hj => entry_zipRow _ c d (hcrows ▸ hi) (hccols ▸ hj)
  have hsums : ∀ i j, i < 1 → j < cols →
      a.columnSums.entry i j = ∑ k ∈ Finset.range rows, a.entry k j := by
    intro i j hi hj
    rw [Nat.lt_one_iff.1 hi, entry_columnSums _ (hacols ▸ hj), sumBelow_eq_sum, harows]
  have hshape : a.columnSums.shape = ⟨1, cols⟩ :=
    (shape_columnSums a).trans (congrArg (Shape.mk 1) hacols)
  rw [pairing_eq_of_entries ha (fun _ _ _ _ => rfl) hsum,
    pairing_eq_of_entries ha (fun _ _ _ _ => rfl) fun _ _ _ _ => rfl,
    pairing_eq_of_entries hshape hsums fun _ _ _ _ => rfl, Finset.sum_range_one]
  simp only [mul_add, Finset.sum_add_distrib, Finset.sum_mul]
  congr 1
  exact Finset.sum_comm

end Matrix

namespace Parameters

variable {α : Type}

/-- The sum of the pairings of named matrices with those that a catalog holds
under the same names. -/
def pairingOf [Zero α] [Add α] [Mul α] (q : Parameters α) (entries : List (String × Matrix α)) :
    α :=
  (entries.map fun entry =>
    match q.find? entry.1 with
    | some m => entry.2.pairing m
    | none => 0).sum

/-- The sum of the pairings of the matrices that two catalogs hold under the
same names. -/
def pairing [Zero α] [Add α] [Mul α] (p q : Parameters α) : α := pairingOf q p.entries

theorem pairingOf_append [CommRing α] (q : Parameters α)
    (entries others : List (String × Matrix α)) :
    pairingOf q (entries ++ others) = pairingOf q entries + pairingOf q others := by
  rw [pairingOf, pairingOf, pairingOf, List.map_append, List.sum_append]

end Parameters

end DeferredReward
