import DeferredReward.Proofs.Arithmetic.Exact
import DeferredReward.Proofs.Matrix.Operations
import DeferredReward.Proofs.Parameters.Blend

/-!
# The elements of parameters

A catalog of matrices is read element by element: by a name, a row and a column.
Its layout says which elements there are, everything else reads as zero, and the
two together determine the catalog. A blend has the weighted means of the
elements, and clamping bounds each of them.

Main statements: `ext_element`, `element_of_blend`, `abs_element_of_clampWithin`.
-/

namespace DeferredReward.Parameters

variable {α : Type}

/-- The element of a row and a column of the matrix under a name; zero where
there is none. -/
def element [Zero α] (p : Parameters α) (name : String) (row col : ℕ) : α :=
  match p.find? name with
  | some m => m.entry row col
  | none => 0

/-- The catalog has an element there. -/
def Has (p : Parameters α) (name : String) (row col : ℕ) : Prop :=
  ∃ m, p.find? name = some m ∧ row < m.rows ∧ col < m.cols

/-- Catalogs of one layout have the same elements. -/
theorem has_of_layout {β : Type} {p : Parameters α} {q : Parameters β} (h : p.layout = q.layout)
    {name : String} {row col : ℕ} (hp : p.Has name row col) : q.Has name row col := by
  obtain ⟨m, hm, hrow, hcol⟩ := hp
  have hshape := shape?_of_layout h name
  rw [hm, Option.map_some] at hshape
  obtain ⟨n, hn, hsame⟩ := Option.map_eq_some_iff.1 hshape.symm
  obtain ⟨hrows, hcols⟩ := Matrix.shape_eq_iff.1 hsame
  exact ⟨n, hn, hrows ▸ hrow, hcols ▸ hcol⟩

section Zero

variable [Zero α]

theorem element_of_find? {p : Parameters α} {name : String} {m : Matrix α}
    (h : p.find? name = some m) (row col : ℕ) : p.element name row col = m.entry row col := by
  rw [element, h]

/-- Where a catalog has no element it reads as zero. -/
theorem element_of_not_has {p : Parameters α} {name : String} {row col : ℕ}
    (h : ¬p.Has name row col) : p.element name row col = 0 := by
  cases hp : p.find? name with
  | none => rw [element, hp]
  | some m =>
    rw [element_of_find? hp]
    exact m.entry_of_not_lt fun hinside => h ⟨m, hp, hinside⟩

/-- The layout and the elements determine a catalog. -/
theorem ext_element {p q : Parameters α} (hlayout : p.layout = q.layout)
    (h : ∀ name row col, p.element name row col = q.element name row col) : p = q := by
  refine Catalog.ext_find? (names_of_layout hlayout) fun name => ?_
  have hshape := shape?_of_layout hlayout name
  cases hp : p.find? name with
  | none =>
    rw [hp, Option.map_none] at hshape
    exact (Option.map_eq_none_iff.1 hshape.symm).symm
  | some m =>
    rw [hp, Option.map_some] at hshape
    obtain ⟨n, hq, hn⟩ := Option.map_eq_some_iff.1 hshape.symm
    obtain ⟨hrows, hcols⟩ := Matrix.shape_eq_iff.1 hn
    have hentries : ∀ row col, m.entry row col = n.entry row col := by
      intro row col
      rw [← element_of_find? hp, ← element_of_find? hq]
      exact h name row col
    have hsame : m = n :=
      Matrix.ext_entry hrows.symm hcols.symm fun row col _ _ => hentries row col
    rw [hq, hsame]

end Zero

/-- The elements of a blend are the weighted means of the elements. -/
theorem element_of_blend [Arithmetic α] {leading following followed : Parameters α} {weight : α}
    (h : leading.blend following weight = .ok followed) {name : String} {row col : ℕ}
    (hhas : leading.Has name row col) :
    followed.element name row col = leading.element name row col * weight +
      following.element name row col * (1 - weight) := by
  obtain ⟨p, hp, hrow, hcol⟩ := hhas
  unfold blend at h
  split at h
  · split at h
    · cases h
    · rename_i hmismatch
      obtain ⟨q, hq, _⟩ :=
        find?_of_mismatch? hmismatch ((leading.find?_eq_some_iff name p).1 hp)
      have hfollowed : followed.find? name =
          some (Matrix.zip (fun x y => x * weight + y * (1 - weight)) p q) := by
        rw [← Except.ok.inj h, Catalog.find?_mapEntries, hp, Option.map_some, hq]
      rw [element_of_find? hfollowed, element_of_find? hp, element_of_find? hq,
        Matrix.entry_zip _ _ _ hrow hcol]
  · cases h

/-- In exact arithmetic a blend within one layout is the weighted mean everywhere. -/
theorem element_of_blend_real {leading following followed : Parameters ℝ} {weight : ℝ}
    (hlayout : leading.layout = following.layout)
    (h : leading.blend following weight = .ok followed) (name : String) (row col : ℕ) :
    followed.element name row col =
      weight * leading.element name row col + (1 - weight) * following.element name row col := by
  by_cases hhas : leading.Has name row col
  · rw [element_of_blend h hhas]
    ring
  · obtain ⟨_, hblend, hsame⟩ := blend_of_layout weight hlayout
    rw [h] at hblend
    cases hblend
    have hfollowing : ¬following.Has name row col := mt (has_of_layout hlayout.symm) hhas
    have hfollowed : ¬followed.Has name row col := mt (has_of_layout hsame) hhas
    rw [element_of_not_has hhas, element_of_not_has hfollowing, element_of_not_has hfollowed]
    ring

/-- In exact arithmetic no element of a clamped catalog is beyond the bound. -/
theorem abs_element_of_clampWithin {raw clamped : Parameters ℝ} {bound : ℝ} (hbound : 0 ≤ bound)
    (h : raw.clampWithin bound = .ok clamped) (name : String) (row col : ℕ) :
    |clamped.element name row col| ≤ bound := by
  unfold clampWithin at h
  split at h
  · have hclamped : clamped.find? name =
        (raw.find? name).map (Matrix.map (Arithmetic.clamp (-bound) bound)) := by
      rw [← Except.ok.inj h, Catalog.map, Catalog.find?_mapEntries]
    by_cases hhas : clamped.Has name row col
    · obtain ⟨m, hm, hrow, hcol⟩ := hhas
      rw [element_of_find? hm]
      rw [hm] at hclamped
      obtain ⟨g, _, rfl⟩ := Option.map_eq_some_iff.1 hclamped.symm
      rw [Matrix.entry_map _ g hrow hcol]
      exact Arithmetic.abs_clamp_le hbound _
    · rw [element_of_not_has hhas, abs_zero]
      exact hbound
  · cases h

end DeferredReward.Parameters
