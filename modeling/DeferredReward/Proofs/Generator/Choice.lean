import DeferredReward.Generator.Choice
import Mathlib.Data.List.Perm.Basic
import Mathlib.Data.List.Nodup
import Mathlib.Data.List.Perm.Subperm

/-!
# Chosen positions are distinct

However the words of the stream fall, a choice of up to `length` positions gives
as many distinct positions below `length` as it was asked for. The in-place
choice and the shuffle only exchange elements; the sparse choices go through
upper ends that no position drawn before can reach; and drawing again adds a
position that is not yet there. This is all that drawing a batch needs of a way
to choose, `Chooses`.

Main statements: `distinct_choose`, `chooses_choose`.
-/

namespace DeferredReward.Generator

/-- The product of two words holds its high half below either of them. -/
theorem highHalf_lt {w range : UInt32} (h : range ≠ 0) :
    ((w.toUInt64 * range.toUInt64) >>> 32).toNat < range.toNat := by
  have hw := w.toNat_lt
  have hrange := range.toNat_lt
  have hpositive : 0 < range.toNat := by
    rcases Nat.eq_zero_or_pos range.toNat with h0 | h0
    · exact absurd (UInt32.toNat_inj.1 h0) h
    · exact h0
  have hproduct : w.toNat * range.toNat < 2 ^ 32 * range.toNat :=
    Nat.mul_lt_mul_of_pos_right hw hpositive
  have hfits : w.toNat * range.toNat < 2 ^ 64 := by omega
  rw [UInt64.toNat_shiftRight, UInt64.toNat_mul, UInt32.toNat_toUInt64, UInt32.toNat_toUInt64,
    Nat.mod_eq_of_lt hfits, Nat.shiftRight_eq_div_pow]
  exact Nat.div_lt_of_lt_mul hproduct

/-- A number below a range is below it, after any number of refusals. -/
theorem belowRange_lt {range : UInt32} (h : range ≠ 0) (tries : Nat) (g : Generator) :
    (belowRange range tries g).1 < range.toNat := by
  induction tries generalizing g with
  | zero => exact highHalf_lt h
  | succ tries ih =>
    rw [belowRange]
    dsimp only
    split
    · exact highHalf_lt h
    · exact ih _

/-- A drawn number is at most the upper end of its interval. -/
theorem integer_le {low high : Nat} (h : low ≤ high) (g : Generator) :
    (integer low high g).1 ≤ high := by
  have hrange : (UInt32.ofNat (high - low + 1)).toNat ≤ high - low + 1 := by
    rw [UInt32.toNat_ofNat']
    exact Nat.mod_le _ _
  unfold integer
  dsimp only
  split
  · -- A range of zero stands for a multiple of the number of words.
    rename_i hzero
    have hword := g.word.1.toNat_lt
    have hmod := congrArg UInt32.toNat hzero
    rw [UInt32.toNat_ofNat', UInt32.toNat_zero] at hmod
    have hlarge := Nat.le_of_dvd (Nat.succ_pos _) (Nat.dvd_of_mod_eq_zero hmod)
    omega
  · rename_i hrange0
    have hoffset := belowRange_lt hrange0 1000 g
    omega

/-- A word is below the number of words. -/
theorem wordBelow_lt (wide : Bool) (g : Generator) : (g.wordBelow wide).1 < wordCount wide := by
  cases wide with
  | false => exact g.word.1.toNat_lt
  | true => exact g.longWord.1.toNat_lt

/-- The high half of the product of a word and a range is below the range. -/
theorem highPart_lt {wide : Bool} {range : Nat} (h : 0 < range) (g : Generator) :
    (g.wordBelow wide).1 * range / wordCount wide < range :=
  Nat.div_lt_of_lt_mul (Nat.mul_lt_mul_of_pos_right (wordBelow_lt wide g) h)

/-- A number drawn evenly below a range is below it, after any number of refusals. -/
theorem evenlyBelow_lt {wide : Bool} {range : Nat} (h : 0 < range) (tries : Nat) (g : Generator) :
    (evenlyBelow wide range tries g).1 < range := by
  induction tries generalizing g with
  | zero => exact highPart_lt h g
  | succ tries ih =>
    rw [evenlyBelow]
    dsimp only
    split
    · exact highPart_lt h g
    · exact ih _

/-- Distinct positions below a bound. -/
structure Distinct (bound : Nat) (positions : List Nat) : Prop where
  /-- No position occurs twice. -/
  nodup : positions.Nodup
  /-- Every position is below the bound. -/
  below : ∀ i ∈ positions, i < bound

namespace Distinct

variable {bound : Nat} {positions others : List Nat}

/-- The order of the positions does not matter. -/
theorem of_perm (h : Distinct bound positions) (hperm : others.Perm positions) :
    Distinct bound others where
  nodup := hperm.nodup_iff.2 h.nodup
  below i hi := h.below i (hperm.mem_iff.1 hi)

/-- One more position that is not among them keeps positions distinct. -/
theorem append (h : Distinct bound positions) {new : Nat} (habsent : new ∉ positions)
    (hnew : new ≤ bound) : Distinct (bound + 1) (positions ++ [new]) where
  nodup := by
    rw [List.nodup_append]
    refine ⟨h.nodup, List.nodup_singleton new, ?_⟩
    intro a ha b hb
    rw [List.mem_singleton.1 hb]
    exact fun heq => habsent (heq ▸ ha)
  below := by
    intro i hi
    rcases List.mem_append.1 hi with hold | hlast
    · exact Nat.lt_succ_of_lt (h.below i hold)
    · rw [List.mem_singleton.1 hlast]
      exact Nat.lt_succ_of_le hnew

/-- One more position below the bound that is not among them keeps positions distinct. -/
theorem append_below (h : Distinct bound positions) {new : Nat} (habsent : new ∉ positions)
    (hnew : new < bound) : Distinct bound (positions ++ [new]) where
  nodup := (h.append habsent (Nat.le_of_lt hnew)).nodup
  below := by
    intro i hi
    rcases List.mem_append.1 hi with hold | hlast
    · exact h.below i hold
    · exact List.mem_singleton.1 hlast ▸ hnew

/-- Fewer positions than the bound leave one below it. -/
theorem exists_notMem (hfew : positions.length < bound) : ∃ i < bound, i ∉ positions := by
  by_contra! hall
  have hsubset : List.range bound ⊆ positions := fun i hi => hall i (List.mem_range.1 hi)
  have hlength := (List.nodup_range.subperm hsubset).length_le
  rw [List.length_range] at hlength
  omega

/-- The bound itself is never among the positions. -/
theorem bound_notMem (h : Distinct bound positions) : bound ∉ positions :=
  fun hmem => Nat.lt_irrefl bound (h.below bound hmem)

end Distinct

theorem perm_swapIfInBounds (positions : Array Nat) (i j : Nat) :
    (positions.swapIfInBounds i j).toList.Perm positions.toList := by
  unfold Array.swapIfInBounds
  split
  · split
    · exact (Array.swap_perm _ _).toList
    · exact List.Perm.refl _
  · exact List.Perm.refl _

theorem perm_exchangeFrom (last count i : Nat) (positions : Array Nat) (g : Generator) :
    (exchangeFrom last count i positions g).1.toList.Perm positions.toList := by
  induction count generalizing i positions g with
  | zero => exact List.Perm.refl _
  | succ count ih => exact (ih (i + 1) _ _).trans (perm_swapIfInBounds _ _ _)

theorem perm_shuffleDown (i : Nat) (positions : Array Nat) (g : Generator) :
    (shuffleDown i positions g).1.toList.Perm positions.toList := by
  induction i generalizing positions g with
  | zero => exact List.Perm.refl _
  | succ i ih => exact (ih _ _).trans (perm_swapIfInBounds _ _ _)

/-- Exchanging elements leaves a permutation, and its front is distinct. -/
theorem distinct_chooseInPlace {length count : Nat} (h : count ≤ length) (g : Generator) :
    Distinct length (chooseInPlace length count g).1 ∧
      (chooseInPlace length count g).1.length = count := by
  have hperm := perm_exchangeFrom (length - 1) count 0 (Array.range length) g
  rw [Array.toList_range] at hperm
  have hall : Distinct length (exchangeFrom (length - 1) count 0 (Array.range length) g).1.toList :=
    Distinct.of_perm ⟨List.nodup_range, fun i hi => List.mem_range.1 hi⟩ hperm
  have hlength := hperm.length_eq
  rw [List.length_range] at hlength
  have hfront : (chooseInPlace length count g).1 =
      (exchangeFrom (length - 1) count 0 (Array.range length) g).1.toList.take count := by
    simp [chooseInPlace]
  rw [hfront]
  constructor
  · exact ⟨hall.nodup.sublist (List.take_sublist _ _),
      fun i hi => hall.below i (List.mem_of_mem_take hi)⟩
  · rw [List.length_take, hlength, Nat.min_eq_left h]

theorem perm_insertBefore {old : Nat} (new : Nat) {positions : List Nat} (h : old ∈ positions) :
    (insertBefore old new positions).Perm (new :: positions) := by
  induction positions with
  | nil => cases h
  | cons x rest ih =>
    rw [insertBefore]
    split
    · exact List.Perm.refl _
    · rename_i hne
      have hrest : old ∈ rest := (List.mem_cons.1 h).resolve_left (Ne.symm hne)
      exact ((ih hrest).cons x).trans (List.Perm.swap new x rest)

/-- Each upper end adds one position that is not yet there. -/
theorem distinct_appendFrom (count : Nat) {last : Nat} {chosen : List Nat}
    (h : Distinct last chosen) (g : Generator) :
    Distinct (last + count) (appendFrom count last chosen g).1 ∧
      (appendFrom count last chosen g).1.length = chosen.length + count := by
  induction count generalizing last chosen g with
  | zero => exact ⟨h, rfl⟩
  | succ count ih =>
    have hdrawn := integer_le (Nat.zero_le last) g
    have hnext : Distinct (last + 1)
        (chosen ++ [if (integer 0 last g).1 ∈ chosen then last else (integer 0 last g).1]) := by
      split
      · exact h.append h.bound_notMem (Nat.le_refl last)
      · rename_i hmem
        exact h.append hmem hdrawn
    obtain ⟨hdistinct, hlength⟩ := ih hnext (integer 0 last g).2
    rw [List.length_append, List.length_singleton] at hlength
    rw [appendFrom, Nat.add_comm count 1, ← Nat.add_assoc, ← Nat.add_assoc]
    exact ⟨hdistinct, hlength⟩

/-- Inserting chooses the same positions as appending, in another order. -/
theorem perm_insertFrom (count last : Nat) {chosen others : List Nat} (h : chosen.Perm others)
    (g : Generator) :
    (insertFrom count last chosen g).1.Perm (appendFrom count last others g).1 := by
  induction count generalizing last chosen others g with
  | zero => exact h
  | succ count ih =>
    have hnext : (if (integer 0 last g).1 ∈ chosen
          then insertBefore (integer 0 last g).1 last chosen
          else chosen ++ [(integer 0 last g).1]).Perm
        (others ++ [if (integer 0 last g).1 ∈ others then last else (integer 0 last g).1]) := by
      by_cases hmem : (integer 0 last g).1 ∈ chosen
      · have hothers : (integer 0 last g).1 ∈ others := h.mem_iff.1 hmem
        have hinserted := perm_insertBefore last hmem
        have hmoved := (h.cons last).trans (List.perm_append_singleton last others).symm
        rw [if_pos hmem, if_pos hothers]
        exact hinserted.trans hmoved
      · have hothers : (integer 0 last g).1 ∉ others := fun hold => hmem (h.mem_iff.2 hold)
        rw [if_neg hmem, if_neg hothers]
        exact h.append_right _
    rw [insertFrom, appendFrom]
    exact ih (last + 1) hnext (integer 0 last g).2

theorem distinct_chooseSparsely {length count : Nat} (h : count ≤ length) (g : Generator) :
    Distinct length (chooseSparsely length count g).1 ∧
      (chooseSparsely length count g).1.length = count := by
  have hstart : Distinct (length - count) [] := ⟨List.nodup_nil, fun _ hmem => nomatch hmem⟩
  obtain ⟨hdistinct, hlength⟩ := distinct_appendFrom count hstart g
  rw [Nat.sub_add_cancel h] at hdistinct
  unfold chooseSparsely
  split
  · have hperm := perm_insertFrom count (length - count) (List.Perm.refl []) g
    exact ⟨hdistinct.of_perm hperm, hperm.length_eq.trans (hlength.trans (Nat.zero_add count))⟩
  · have hperm := perm_shuffleDown (count - 1) (appendFrom count (length - count) [] g).1.toArray
      (appendFrom count (length - count) [] g).2
    exact ⟨hdistinct.of_perm hperm, hperm.length_eq.trans (hlength.trans (Nat.zero_add count))⟩

/-- While positions are left, a new position is below the length and not a chosen one. -/
theorem newBelow_spec {length : Nat} {chosen : List Nat} (hfew : chosen.length < length)
    (tries : Nat) (g : Generator) :
    (newBelow length chosen tries g).1 < length ∧ (newBelow length chosen tries g).1 ∉ chosen := by
  induction tries generalizing g with
  | zero =>
    obtain ⟨i, hi, habsent⟩ := Distinct.exists_notMem hfew
    cases hfound : (List.range length).find? fun i => i ∉ chosen with
    | none =>
      have hnone := List.find?_eq_none.1 hfound i (List.mem_range.2 hi)
      exact absurd (decide_eq_true habsent) hnone
    | some first =>
      have hbelow : first < length := List.mem_range.1 (List.mem_of_find?_eq_some hfound)
      have hnew : first ∉ chosen := by simpa using List.find?_some hfound
      rw [newBelow, hfound]
      exact ⟨hbelow, hnew⟩
  | succ tries ih =>
    rw [newBelow]
    dsimp only
    split
    · exact ih _
    · rename_i habsent
      exact ⟨evenlyBelow_lt (Nat.zero_lt_of_lt hfew) 1000 g, habsent⟩

/-- New positions are added as long as there is room for them. -/
theorem distinct_appendNew {length : Nat} (count : Nat) {chosen : List Nat}
    (h : Distinct length chosen) (hroom : chosen.length + count ≤ length) (g : Generator) :
    Distinct length (appendNew length count chosen g).1 ∧
      (appendNew length count chosen g).1.length = chosen.length + count := by
  induction count generalizing chosen g with
  | zero => exact ⟨h, rfl⟩
  | succ count ih =>
    have hfew : chosen.length < length := by omega
    obtain ⟨hbelow, habsent⟩ := newBelow_spec hfew 1000 g
    have hlength : (chosen ++ [(newBelow length chosen 1000 g).1]).length = chosen.length + 1 :=
      List.length_append
    have hrest := ih (h.append_below habsent hbelow) (by omega) (newBelow length chosen 1000 g).2
    rw [hlength] at hrest
    rw [appendNew, Nat.add_comm count 1, ← Nat.add_assoc]
    exact hrest

theorem distinct_chooseRepeatedly {length count : Nat} (h : count ≤ length) (g : Generator) :
    Distinct length (chooseRepeatedly length count g).1 ∧
      (chooseRepeatedly length count g).1.length = count := by
  have hstart : Distinct length [] := ⟨List.nodup_nil, fun _ hmem => nomatch hmem⟩
  have hchosen := distinct_appendNew count hstart (by rwa [List.length_nil, Nat.zero_add]) g
  rwa [List.length_nil, Nat.zero_add] at hchosen

/-- A choice of no more positions than there are gives that many distinct ones. -/
theorem distinct_choose {length count : Nat} (h : count ≤ length) (g : Generator) :
    Distinct length (choose length count g).1 ∧ (choose length count g).1.length = count := by
  unfold choose
  split
  · exact distinct_chooseRepeatedly h g
  split
  · exact distinct_chooseInPlace h g
  split
  · exact distinct_chooseSparsely h g
  · exact distinct_chooseRepeatedly h g

/-- What a caller relies on: up to the length, as many distinct positions as were asked for. -/
def Chooses (choose : Chooser) : Prop :=
  ∀ {length count : Nat}, count ≤ length → ∀ g : Generator,
    Distinct length (choose length count g).1 ∧ (choose length count g).1.length = count

theorem chooses_choose : Chooses choose := distinct_choose

end DeferredReward.Generator
