import DeferredReward.Parameters.Blend
import DeferredReward.Proofs.Catalog

/-!
# Blending and clamping within one layout

Catalogs of one layout can always be blended, and neither blending nor clamping
changes the layout.

Main statements: `blend_of_layout`, `clampWithin_eq_ok`.
-/

namespace DeferredReward.Parameters

variable {α : Type} [Arithmetic α]

/-- Catalogs of one layout have a blend, which is of that layout too. -/
theorem blend_of_layout {leading following : Parameters α} (weight : α)
    (h : leading.layout = following.layout) :
    ∃ followed, leading.blend following weight = .ok followed ∧
      followed.layout = leading.layout := by
  unfold blend
  rw [if_pos (size_of_layout h)]
  split
  · rename_i hmismatch
    rw [mismatch?_of_layout h] at hmismatch
    cases hmismatch
  · refine ⟨_, rfl, layout_mapEntries fun entry _ => ?_⟩
    split
    · exact Matrix.shape_zip _ _ _
    · rfl

/-- Clamping to an interval with a lower end below its upper end meets no
fault and keeps the layout. -/
theorem clampWithin_eq_ok {bound : α} (hbound : Arithmetic.atMost (-bound) bound = true)
    (gradients : Parameters α) :
    ∃ clamped, gradients.clampWithin bound = .ok clamped ∧
      clamped.layout = gradients.layout := by
  refine ⟨gradients.map fun m => m.map (Arithmetic.clamp (-bound) bound), ?_, ?_⟩
  · rw [clampWithin, hbound]
    rfl
  · exact layout_mapEntries fun entry _ => Matrix.shape_map _ _

end DeferredReward.Parameters
