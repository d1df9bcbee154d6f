import DeferredReward.Network.Basic
import DeferredReward.Proofs.Catalog
import Mathlib.Data.List.Nodup
import Mathlib.Data.List.TakeWhile

/-!
# The names of parameters

A parameter name is made of the position of its layer and of its name in the
layer. The digits of the position end at the first point, so no two parameters
share a name, however many layers there are, and the catalog that collects the
matrices of all layers lists them layer by layer.

Main statements: `parameterName_inj`, `entries_collect`.
-/

namespace DeferredReward.Network

variable {α : Type}

theorem digits_ne_point (position : Nat) : ∀ c ∈ position.repr.toList, c ≠ '.' := by
  intro c hc heq
  rw [Nat.toList_repr] at hc
  have hdigit := Nat.isDigit_of_mem_toDigits (by decide) (by decide) hc
  rw [heq] at hdigit
  exact absurd hdigit (by decide)

/-- The digits of the position are what stands before the first point. -/
theorem takeWhile_digits (position : Nat) (rest : List Char) :
    (position.repr.toList ++ '.' :: rest).takeWhile (· ≠ '.') = position.repr.toList := by
  rw [List.takeWhile_append_of_pos fun c hc => by simpa using digits_ne_point position c hc]
  simp

/-- The position of the layer and the name in it can be read off a parameter name. -/
theorem parameterName_inj {i j : Nat} {name other : String} :
    parameterName i name = parameterName j other ↔ i = j ∧ name = other := by
  constructor
  · intro h
    have hchars : i.repr.toList ++ '.' :: name.toList = j.repr.toList ++ '.' :: other.toList := by
      have htext : ("layers." ++ i.repr ++ "." ++ name).toList =
          ("layers." ++ j.repr ++ "." ++ other).toList := congrArg String.toList h
      simp only [String.toList_append, List.append_assoc, List.append_cancel_left_eq] at htext
      exact htext
    have hdigits : i.repr.toList = j.repr.toList := by
      rw [← takeWhile_digits i name.toList, hchars, takeWhile_digits]
    have hposition : i = j := by
      rw [Nat.toList_repr, Nat.toList_repr] at hdigits
      rw [← Nat.ofDigitChars_ten_toDigits (n := i), hdigits, Nat.ofDigitChars_ten_toDigits]
    subst hposition
    have hname := List.append_cancel_left hchars
    exact ⟨rfl, String.toList_inj.1 (List.cons.inj hname).2⟩
  · rintro ⟨rfl, rfl⟩
    rfl

/-- The matrices that `select` names in each layer from a position on, under
their full names. -/
def namedFrom (select : Layer α → List (String × Matrix α)) :
    (position : Nat) → List (Layer α) → List (String × Matrix α)
  | _, [] => []
  | position, layer :: rest =>
    (select layer).map (fun entry => (parameterName position entry.1, entry.2)) ++
      namedFrom select (position + 1) rest

/-- Every name belongs to a layer from the position on. -/
theorem name_of_mem_namedFrom {select : Layer α → List (String × Matrix α)} {position : Nat}
    {layers : List (Layer α)} {entry : String × Matrix α}
    (h : entry ∈ namedFrom select position layers) :
    ∃ i name, position ≤ i ∧ entry.1 = parameterName i name := by
  induction layers generalizing position with
  | nil => cases h
  | cons layer rest ih =>
    rw [namedFrom, List.mem_append] at h
    cases h with
    | inl hhere =>
      obtain ⟨own, _, rfl⟩ := List.mem_map.1 hhere
      exact ⟨position, own.1, Nat.le_refl _, rfl⟩
    | inr hlater =>
      obtain ⟨i, name, hle, heq⟩ := ih hlater
      exact ⟨i, name, by omega, heq⟩

/-- When no layer names two matrices alike, no two full names are alike. -/
theorem nodup_namedFrom {select : Layer α → List (String × Matrix α)}
    (hselect : ∀ layer, ((select layer).map Prod.fst).Nodup) (position : Nat)
    (layers : List (Layer α)) : ((namedFrom select position layers).map Prod.fst).Nodup := by
  induction layers generalizing position with
  | nil => exact List.nodup_nil
  | cons layer rest ih =>
    rw [namedFrom, List.map_append, List.nodup_append]
    refine ⟨?_, ih (position + 1), ?_⟩
    · have hnames : ((select layer).map fun entry =>
          (parameterName position entry.1, entry.2)).map Prod.fst =
          ((select layer).map Prod.fst).map (parameterName position) := by
        rw [List.map_map, List.map_map]
        rfl
      rw [hnames]
      exact List.Nodup.map (fun _ _ h => (parameterName_inj.1 h).2) (hselect layer)
    · intro a ha b hb heq
      obtain ⟨here, hhere, rfl⟩ := List.mem_map.1 ha
      obtain ⟨own, _, rfl⟩ := List.mem_map.1 hhere
      obtain ⟨later, hlater, rfl⟩ := List.mem_map.1 hb
      obtain ⟨i, name, hle, hname⟩ := name_of_mem_namedFrom hlater
      have hposition := (parameterName_inj.1 (heq.trans hname)).1
      omega

theorem flatMap_zipIdx (select : Layer α → List (String × Matrix α)) (position : Nat)
    (layers : List (Layer α)) :
    ((layers.zipIdx position).flatMap fun (layer, i) =>
      (select layer).map fun (name, value) => (parameterName i name, value)) =
    namedFrom select position layers := by
  induction layers generalizing position with
  | nil => rfl
  | cons layer rest ih =>
    rw [List.zipIdx_cons, List.flatMap_cons, ih (position + 1)]
    rfl

/-- A catalog of all layers lists their matrices in order. -/
theorem entries_collect {select : Layer α → List (String × Matrix α)}
    (hselect : ∀ layer, ((select layer).map Prod.fst).Nodup) (network : Network α) :
    (network.collect select).entries = namedFrom select 0 network.layers := by
  have hflat := flatMap_zipIdx select 0 network.layers
  rw [collect, hflat]
  exact Catalog.entries_ofList (nodup_namedFrom hselect 0 network.layers)

theorem nodup_parameters (layer : Layer α) : (layer.parameters.map Prod.fst).Nodup := by
  cases layer <;> simp [Layer.parameters]

theorem nodup_gradients (layer : Layer α) : (layer.gradients.map Prod.fst).Nodup := by
  cases layer <;> simp [Layer.gradients]

/-- The parameters are those of the layers in order. -/
theorem entries_parameters (network : Network α) :
    network.parameters.entries = namedFrom Layer.parameters 0 network.layers :=
  entries_collect nodup_parameters network

/-- The gradients are those of the layers in order. -/
theorem entries_gradients (network : Network α) :
    network.gradients.entries = namedFrom Layer.gradients 0 network.layers :=
  entries_collect nodup_gradients network

end DeferredReward.Network
