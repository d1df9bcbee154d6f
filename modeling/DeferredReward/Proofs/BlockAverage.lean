import DeferredReward.BlockAverage
import DeferredReward.Proofs.Arithmetic.Exact
import Mathlib.Algebra.Order.Floor.Div

/-!
# Blocks of a curve

A curve is walked block by block, with machine words for places. The length of a block
is the caller's, up to the largest word, and it is added to a place before it is known
whether the curve goes that far. Nothing exceeds a word all the same: at the start the
sum is the length itself, and behind the first block a whole block has been passed, so
that its length is at most that of the curve. The walk ends because no block is empty.

The blocks are the curve cut into parts of one length, the last one with what is left.
In exact arithmetic their means, each as often as its block has values, have the sum of
the curve.

Main statements: `exists_walk`, `Walk.isPartition`, `Walk.averagesFrom_eq`,
`averages_of_blocks`.
-/

namespace DeferredReward

variable {α : Type}

/-! ## Walks -/

/-- A walk over the values from a place on, with the blocks it takes. It ends where the
values do. Before that the sum of place and block length is a machine word, and the block
up to its end is not empty and lies among the values. -/
inductive Walk (window : UInt64) (values : Array α) : UInt64 → List (List α) → Prop where
  /-- Nothing is left. -/
  | finish {start : UInt64} (hend : ¬start < UInt64.ofNat values.size) :
      Walk window values start []
  /-- A block is taken. -/
  | block {start stop : UInt64} {rest : List (List α)}
      (hbefore : start < UInt64.ofNat values.size)
      (hword : start.toNat + window.toNat < UInt64.size)
      (hstop : blockEnd window (UInt64.ofNat values.size) start = stop)
      (hfilled : start.toNat < stop.toNat) (hinside : stop.toNat ≤ values.size)
      (hrest : Walk window values stop rest) :
      Walk window values start ((values.extract start.toNat stop.toNat).toList :: rest)

/-- Where a walk can stand: at the start, behind a whole block, or at the end. -/
def Stands (window : UInt64) (size : ℕ) (start : UInt64) : Prop :=
  start = 0 ∨ window.toNat ≤ start.toNat ∨ start.toNat = size

variable {window : UInt64} {values : Array α} {start : UInt64}

/-- The number of values is a machine word. -/
theorem toNat_ofNat_size (hsize : values.size < 2 ^ 60) :
    (UInt64.ofNat values.size).toNat = values.size :=
  UInt64.toNat_ofNat_of_lt' (hsize.trans (by decide))

/-- From where a walk can stand, the sum of place and block length is a machine word. -/
theorem Stands.add_lt {size : ℕ} (h : Stands window size start) (hsize : size < 2 ^ 60)
    (hbefore : start.toNat < size) : start.toNat + window.toNat < UInt64.size := by
  have hwindow : window.toNat < UInt64.size := window.toNat_lt
  have hlarge : 2 ^ 61 < UInt64.size := by decide
  obtain rfl | hbehind | hlast := h
  · rw [UInt64.toNat_zero, Nat.zero_add]
    exact hwindow
  · omega
  · omega

/-- Without overflow a block ends one block length further, or where the values do. -/
theorem toNat_blockEnd (hsize : values.size < 2 ^ 60)
    (hword : start.toNat + window.toNat < UInt64.size) :
    (blockEnd window (UInt64.ofNat values.size) start).toNat =
      min (start.toNat + window.toNat) values.size := by
  have hsum : (start + window).toNat = start.toNat + window.toNat := by
    rw [UInt64.toNat_add]
    exact Nat.mod_eq_of_lt hword
  have hlength := toNat_ofNat_size hsize
  unfold blockEnd
  split
  · rename_i hfits
    rw [UInt64.lt_iff_toNat_lt, hsum, hlength] at hfits
    rw [hsum, Nat.min_eq_left hfits.le]
  · rename_i hbeyond
    rw [UInt64.lt_iff_toNat_lt, hsum, hlength] at hbeyond
    rw [hlength, Nat.min_eq_right (Nat.not_lt.1 hbeyond)]

/-- At the end of a block a walk can stand. -/
theorem stands_of_min {size : ℕ} {stop : UInt64}
    (hstop : stop.toNat = min (start.toNat + window.toNat) size) : Stands window size stop := by
  obtain hle | hle := Nat.le_total (start.toNat + window.toNat) size
  · exact .inr (.inl (by omega))
  · exact .inr (.inr (by omega))

/-- From where a walk can stand, with blocks that are not empty, there is one. -/
theorem exists_walk (hsize : values.size < 2 ^ 60) (hwindow : 0 < window.toNat)
    (hstands : Stands window values.size start) : ∃ blocks, Walk window values start blocks := by
  -- By induction on what is left: every block takes something of it.
  induction hleft : values.size - start.toNat using Nat.strong_induction_on generalizing start with
  | _ left ih =>
    by_cases hbefore : start < UInt64.ofNat values.size
    · have hless := UInt64.lt_iff_toNat_lt.1 hbefore
      rw [toNat_ofNat_size hsize] at hless
      have hword := hstands.add_lt hsize hless
      have hstop := toNat_blockEnd hsize hword
      obtain ⟨rest, hrest⟩ := ih _ (by omega) (stands_of_min hstop) rfl
      exact ⟨_, .block hbefore hword rfl (by omega) (by omega) hrest⟩
    · exact ⟨[], .finish hbefore⟩

/-- With fuel for what is left, or with more of it, the averages are the means of the blocks
that a walk takes. -/
theorem Walk.averagesFrom_eq [Arithmetic α] {blocks : List (List α)}
    (h : Walk window values start blocks) {fuel : ℕ} (hfuel : values.size ≤ start.toNat + fuel) :
    averagesFrom window values fuel start = blocks.map mean := by
  induction h generalizing fuel with
  | finish hend =>
    cases fuel with
    | zero => rfl
    | succ fuel => rw [averagesFrom, if_neg hend, List.map_nil]
  | block hbefore _ hstop hfilled hinside _ ih =>
    cases fuel with
    | zero => omega
    | succ fuel =>
      rw [averagesFrom, if_pos hbefore, List.map_cons]
      dsimp only
      rw [hstop, ih (by omega)]

/-! ## Partitions -/

/-- The blocks are the list cut into parts of the given length, the last one with what is left. -/
structure IsPartition (length : ℕ) (list : List α) (blocks : List (List α)) : Prop where
  /-- One after the other they are the list. -/
  flatten : blocks.flatten = list
  /-- All but the last have the length. -/
  length_eq : ∀ block ∈ blocks.dropLast, block.length = length
  /-- The last is not empty, and not longer. -/
  last : ∀ block ∈ blocks.getLast?, 0 < block.length ∧ block.length ≤ length

theorem IsPartition.nil (length : ℕ) : IsPartition length ([] : List α) [] where
  flatten := rfl
  length_eq _ h := nomatch h
  last _ h := nomatch h

/-- No block of a partition is empty. -/
theorem IsPartition.length_pos {length : ℕ} {list : List α} {blocks : List (List α)}
    (h : IsPartition length list blocks) (hlength : 0 < length) :
    ∀ block ∈ blocks, 0 < block.length := by
  intro block hblock
  obtain rfl | ⟨front, last, rfl⟩ := List.eq_nil_or_concat' blocks
  · cases hblock
  have hfront := h.length_eq block
  have hlast := h.last last
  rw [List.dropLast_concat] at hfront
  rw [List.getLast?_concat] at hlast
  obtain hmem | hmem := List.mem_append.1 hblock
  · rw [hfront hmem]
    exact hlength
  · rw [List.mem_singleton.1 hmem]
    exact (hlast rfl).1

/-- A part before a partition: it has the length, unless nothing comes after it. -/
theorem IsPartition.cons {length : ℕ} {block list : List α} {blocks : List (List α)}
    (h : IsPartition length list blocks) (hpos : 0 < block.length) (hle : block.length ≤ length)
    (hwhole : list ≠ [] → block.length = length) :
    IsPartition length (block ++ list) (block :: blocks) := by
  have hflatten : (block :: blocks).flatten = block ++ list := by
    rw [List.flatten_cons, h.flatten]
  cases blocks with
  | nil =>
    refine ⟨hflatten, (fun _ hmem => nomatch hmem), fun last hlast => ?_⟩
    cases hlast
    exact ⟨hpos, hle⟩
  | cons next blocks =>
    have hnext : 0 < next.length := h.length_pos (hpos.trans_le hle) next List.mem_cons_self
    have hlist : list ≠ [] := by
      rw [← h.flatten, List.flatten_cons]
      exact List.append_ne_nil_of_left_ne_nil (List.length_pos_iff.1 hnext) _
    refine ⟨hflatten, ?_, ?_⟩
    · rw [List.dropLast_cons_of_ne_nil (List.cons_ne_nil next blocks), List.forall_mem_cons]
      exact ⟨hwhole hlist, h.length_eq⟩
    · rw [List.getLast?_cons_cons]
      exact h.last

/-- There are as many blocks as the length of the list, divided by that of a block and rounded
up. -/
theorem IsPartition.length_blocks {length : ℕ} {list : List α} {blocks : List (List α)}
    (h : IsPartition length list blocks) (hlength : 0 < length) :
    blocks.length = list.length ⌈/⌉ length := by
  obtain rfl | ⟨front, last, rfl⟩ := List.eq_nil_or_concat' blocks
  · rw [← h.flatten]
    exact (zero_ceilDiv length).symm
  have hfront := h.length_eq
  have hlast := h.last last
  rw [List.dropLast_concat] at hfront
  rw [List.getLast?_concat] at hlast
  obtain ⟨hpos, hle⟩ := hlast rfl
  have hlengths : front.map List.length = List.replicate front.length length :=
    List.map_eq_replicate_iff.2 hfront
  have hlist : list.length = front.length * length + last.length := by
    rw [← h.flatten, List.length_flatten, List.map_append, hlengths, List.sum_append,
      List.sum_replicate, smul_eq_mul]
    rfl
  rw [hlist, List.length_append, List.length_singleton, Nat.ceilDiv_eq_add_pred_div]
  symm
  rw [Nat.div_eq_iff hlength]
  constructor
  · rw [Nat.add_mul]
    omega
  · rw [Nat.add_mul]
    omega

/-- What a walk takes is what is left, in parts of the block length. -/
theorem Walk.isPartition {blocks : List (List α)} (h : Walk window values start blocks)
    (hsize : values.size < 2 ^ 60) :
    IsPartition window.toNat (values.toList.drop start.toNat) blocks := by
  induction h with
  | finish hend =>
    rw [UInt64.lt_iff_toNat_lt, toNat_ofNat_size hsize, Nat.not_lt] at hend
    rw [List.drop_of_length_le hend]
    exact .nil _
  | @block start stop rest _ hword hstop hfilled hinside _ ih =>
    have hmin := toNat_blockEnd hsize hword
    rw [hstop] at hmin
    have hlength : (values.extract start.toNat stop.toNat).toList.length =
        stop.toNat - start.toNat := by
      rw [Array.length_toList, Array.size_extract, Nat.min_eq_left hinside]
    have hlist : (values.extract start.toNat stop.toNat).toList ++
        values.toList.drop stop.toNat = values.toList.drop start.toNat := by
      have hsplit := List.take_append_drop (stop.toNat - start.toNat)
        (values.toList.drop start.toNat)
      rwa [List.drop_drop, Nat.add_sub_cancel' hfilled.le, ← List.extract_eq_take_drop,
        ← Array.toList_extract] at hsplit
    rw [← hlist]
    refine ih.cons (by omega) (by omega) fun hmore => ?_
    rw [ne_eq, List.drop_eq_nil_iff, Array.length_toList, Nat.not_le] at hmore
    omega

/-! ## Exact means -/

/-- The mean of a block is its sum divided by its length. -/
theorem mean_eq (block : List ℝ) : mean block = block.sum / block.length := by
  have hzero : (-0 : ℝ) = 0 := neg_zero
  have hsum : sumFrom block = block.foldl (· + ·) 0 := congrArg (block.foldl (· + ·)) hzero
  rw [mean, hsum, List.sum_eq_foldl]

/-- The means of a partition, each as often as its block has values, have the sum of the list. -/
theorem IsPartition.sum_means {length : ℕ} {list : List ℝ} {blocks : List (List ℝ)}
    (h : IsPartition length list blocks) (hlength : 0 < length) :
    (List.zipWith (fun block average => (block.length : ℝ) * average) blocks
      (blocks.map mean)).sum = list.sum := by
  have hweighted : ∀ block ∈ blocks, (block.length : ℝ) * mean block = block.sum := by
    intro block hblock
    have hpos : (block.length : ℝ) ≠ 0 := Nat.cast_ne_zero.2 (h.length_pos hlength block hblock).ne'
    rw [mean_eq, mul_div_cancel₀ _ hpos]
  rw [List.zipWith_map_right, List.zipWith_self, List.map_congr_left hweighted, ← h.flatten,
    List.sum_flatten]

/-- A block length of zero counts as one. -/
theorem toNat_max_one (window : UInt64) : (max window 1).toNat = max window.toNat 1 :=
  UInt64.toNat_max window 1

/-- Of fewer than `2 ^ 60` values, for every block length up to the largest word, a walk comes to
the end with every place a machine word and every block filled and inside. Its blocks are the
values cut into parts of the length, or of one if it is zero, and the averages are their means,
each the sum of a block divided by its length; more fuel changes nothing. They are as many as the
number of values divided by the length and rounded up. In exact arithmetic the averages, each
as often as its block has values, have the sum of all values. -/
theorem averages_of_blocks (window : UInt64) :
    (∀ {α : Type} [Arithmetic α] (values : Array α), values.size < 2 ^ 60 →
      ∃ blocks, Walk (max window 1) values 0 blocks ∧
        IsPartition (max window.toNat 1) values.toList blocks ∧
        blockAverages window values = blocks.map mean ∧
        (∀ fuel, values.size ≤ fuel →
          averagesFrom (max window 1) values fuel 0 = blockAverages window values) ∧
        (blockAverages window values).length = values.size ⌈/⌉ max window.toNat 1) ∧
    ∀ values : Array ℝ, values.size < 2 ^ 60 →
      ∃ blocks, IsPartition (max window.toNat 1) values.toList blocks ∧
        blockAverages window values = blocks.map (fun block => block.sum / (block.length : ℝ)) ∧
        (List.zipWith (fun block average => (block.length : ℝ) * average) blocks
          (blockAverages window values)).sum = values.toList.sum := by
  have hpos : 0 < max window.toNat 1 := lt_max_of_lt_right Nat.one_pos
  have hblocks : ∀ {α : Type} [Arithmetic α] (values : Array α), values.size < 2 ^ 60 →
      ∃ blocks, Walk (max window 1) values 0 blocks ∧
        IsPartition (max window.toNat 1) values.toList blocks ∧
        ∀ fuel, values.size ≤ fuel →
          averagesFrom (max window 1) values fuel 0 = blocks.map mean := by
    intro α _ values hsize
    have hwindow : 0 < (max window 1).toNat := by
      rw [toNat_max_one]
      exact hpos
    obtain ⟨blocks, hwalk⟩ := exists_walk hsize hwindow (.inl rfl)
    have hparts := hwalk.isPartition hsize
    rw [toNat_max_one] at hparts
    exact ⟨blocks, hwalk, hparts, fun fuel hfuel => hwalk.averagesFrom_eq (by simpa using hfuel)⟩
  constructor
  · intro α _ values hsize
    obtain ⟨blocks, hwalk, hparts, hfuel⟩ := hblocks values hsize
    have haverages : blockAverages window values = blocks.map mean := hfuel _ le_rfl
    refine ⟨blocks, hwalk, hparts, haverages, fun fuel henough => ?_, ?_⟩
    · rw [hfuel fuel henough, haverages]
    · rw [haverages, List.length_map, hparts.length_blocks hpos, Array.length_toList]
  · intro values hsize
    obtain ⟨blocks, -, hparts, hfuel⟩ := hblocks values hsize
    have haverages : blockAverages window values = blocks.map mean := hfuel _ le_rfl
    refine ⟨blocks, hparts, ?_, ?_⟩
    · rw [haverages]
      exact List.map_congr_left fun block _ => mean_eq block
    · rw [haverages]
      exact hparts.sum_means hpos

/-- The largest word as block length gives one block and zero gives a block for each value. Five
values in blocks of two have three means, which weigh as much as the values. -/
theorem averages_of_blocks_extremes :
    (blockAverages 18446744073709551615 (#[1, 3, 2] : Array ℝ)).length = 1 ∧
      (blockAverages 0 (#[1, 3, 2] : Array ℝ)).length = 3 ∧
      (blockAverages 2 (#[1, 3, 2, 4, 10] : Array ℝ)).length = 3 ∧
      ∃ blocks, IsPartition 2 [1, 3, 2, 4, 10] blocks ∧
        blockAverages 2 #[1, 3, 2, 4, 10] =
          blocks.map (fun block => block.sum / (block.length : ℝ)) ∧
        (List.zipWith (fun block average => (block.length : ℝ) * average) blocks
          (blockAverages 2 #[1, 3, 2, 4, 10])).sum = 20 := by
  have hfew : ∀ {values : Array ℝ}, values.size ≤ 5 → values.size < 2 ^ 60 :=
    fun hsize => hsize.trans_lt (by decide)
  obtain ⟨_, _, _, _, _, hlargest⟩ :=
    (averages_of_blocks 18446744073709551615).1 (#[1, 3, 2] : Array ℝ) (hfew (by decide))
  obtain ⟨_, _, _, _, _, hzero⟩ :=
    (averages_of_blocks 0).1 (#[1, 3, 2] : Array ℝ) (hfew (by decide))
  obtain ⟨_, _, _, _, _, htwo⟩ :=
    (averages_of_blocks 2).1 (#[1, 3, 2, 4, 10] : Array ℝ) (hfew (by decide))
  obtain ⟨blocks, hparts, hmeans, hsum⟩ :=
    (averages_of_blocks 2).2 #[1, 3, 2, 4, 10] (hfew (by decide))
  refine ⟨hlargest, hzero, htwo, blocks, hparts, hmeans, hsum.trans ?_⟩
  norm_num

end DeferredReward
