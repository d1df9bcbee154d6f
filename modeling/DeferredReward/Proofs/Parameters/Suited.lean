import DeferredReward.Network.Error
import DeferredReward.Proofs.Catalog
import Mathlib.Data.List.Perm.Subperm

/-!
# Catalogs that suit one another

One catalog suits another when it has a matrix of the same shape under each of the
other's names; it may have more. The comparison that loading, optimizing and
blending make finds the first name that is not suited. When both are of one size
there is no room for more: then the two hold the same shapes under the same names,
in whatever order either lists them.

Main statements: `mismatch?_eq_some_iff`, `suitedBy_and_size_iff`, `compared_eq_ok_iff`,
`compared_eq_error_iff`, `mismatch?_of_perm`.
-/

namespace DeferredReward

namespace Catalog

variable {β γ : Type}

/-- The names of a catalog that has as many of them and all those of the other are
the names of the other. -/
theorem mem_names_of_size {c : Catalog β} {d : Catalog γ} (hsize : c.size = d.size)
    (h : ∀ name ∈ c.names, name ∈ d.names) (name : String) : name ∈ d.names ↔ name ∈ c.names := by
  have hlength : d.names.length ≤ c.names.length := by
    rw [names, names, List.length_map, List.length_map]
    exact Nat.le_of_eq hsize.symm
  have hperm : c.names.Perm d.names := (List.Nodup.subperm c.nodup h).perm_of_length_le hlength
  exact hperm.mem_iff.symm

/-- Catalogs of the same names are of one size. -/
theorem size_of_mem_names {c : Catalog β} {d : Catalog γ}
    (h : ∀ name, name ∈ d.names ↔ name ∈ c.names) : c.size = d.size := by
  have hperm : c.names.Perm d.names :=
    (List.perm_ext_iff_of_nodup c.nodup d.nodup).2 fun name => (h name).symm
  have hlength := hperm.length_eq
  rwa [names, names, List.length_map, List.length_map] at hlength

/-- What can be found does not depend on the order of the entries. -/
theorem find?_of_perm {c d : Catalog β} (h : c.entries.Perm d.entries) (name : String) :
    c.find? name = d.find? name := by
  refine Option.ext fun value => ?_
  rw [find?_eq_some_iff, find?_eq_some_iff]
  exact h.mem_iff

end Catalog

namespace Parameters

variable {α β γ : Type}

/-- Under each of its names the other catalog has a matrix of the same shape. -/
def SuitedBy (own : Parameters α) (other : Parameters β) : Prop :=
  ∀ entry ∈ own.entries, (other.find? entry.1).map Matrix.shape = some entry.2.shape

/-- The first of its names under which the other catalog has nothing, or a matrix
of another shape. -/
def FirstUnsuited (own : Parameters α) (other : Parameters β) (name : String) : Prop :=
  ∃ before p later, own.entries = before ++ (name, p) :: later ∧
    (∀ entry ∈ before, (other.find? entry.1).map Matrix.shape = some entry.2.shape) ∧
    (other.find? name).map Matrix.shape ≠ some p.shape

/-- The catalogs have the same names, and under each of them matrices of one shape. -/
def Matches (own : Parameters α) (other : Parameters β) : Prop :=
  ∀ name, (other.find? name).map Matrix.shape = (own.find? name).map Matrix.shape

/-- There is no mismatch exactly when the other catalog suits this one. -/
theorem mismatch?_eq_none_iff_suitedBy (own : Parameters α) (other : Parameters β) :
    own.mismatch? other = none ↔ own.SuitedBy other := by
  rw [mismatch?_eq_none_iff]
  exact forall₂_congr fun entry _ => other.hasShape_iff entry.1 entry.2.shape

/-- A catalog of the same layout suits. -/
theorem suitedBy_of_layout {own : Parameters α} {other : Parameters β}
    (h : own.layout = other.layout) : own.SuitedBy other :=
  (mismatch?_eq_none_iff_suitedBy own other).1 (mismatch?_of_layout h)

/-- The mismatch is the first name that is not suited. -/
theorem mismatch?_eq_some_iff (own : Parameters α) (other : Parameters β) (name : String) :
    own.mismatch? other = some name ↔ own.FirstUnsuited other name := by
  have hunsuited : ∀ entry : String × Matrix α, (!other.hasShape entry.1 entry.2.shape) = true ↔
      (other.find? entry.1).map Matrix.shape ≠ some entry.2.shape := by
    intro entry
    rw [Bool.not_eq_true', ← Bool.not_eq_true, hasShape_iff]
  rw [mismatch?, Option.map_eq_some_iff]
  constructor
  · rintro ⟨⟨_, p⟩, hfound, rfl⟩
    obtain ⟨hoffends, before, later, hentries, hbefore⟩ :=
      List.find?_eq_some_iff_append.1 hfound
    refine ⟨before, p, later, hentries, fun entry hentry => ?_, (hunsuited _).1 hoffends⟩
    have hsuits := hbefore entry hentry
    rwa [Bool.not_not, hasShape_iff] at hsuits
  · rintro ⟨before, p, later, hentries, hbefore, hoffends⟩
    refine ⟨(name, p), List.find?_eq_some_iff_append.2 ⟨(hunsuited _).2 hoffends, before, later,
      hentries, fun entry hentry => ?_⟩, rfl⟩
    rw [Bool.not_not, hasShape_iff]
    exact hbefore entry hentry

/-- Catalogs that match have the same names. -/
theorem Matches.mem_names {own : Parameters α} {other : Parameters β} (h : own.Matches other)
    (name : String) : name ∈ other.names ↔ name ∈ own.names := by
  rw [← not_iff_not, ← other.find?_eq_none_iff, ← own.find?_eq_none_iff,
    ← Option.map_eq_none_iff (f := Matrix.shape), h name, Option.map_eq_none_iff]

/-- Catalogs that match still match when both list their entries in another order. -/
theorem Matches.of_perm {own own' : Parameters α} {other other' : Parameters β}
    (h : own.Matches other) (hown : own'.entries.Perm own.entries)
    (hother : other'.entries.Perm other.entries) : own'.Matches other' := by
  intro name
  rw [Catalog.find?_of_perm hown, Catalog.find?_of_perm hother]
  exact h name

/-- A catalog of the same size that suits this one matches it. -/
theorem suitedBy_and_size_iff (own : Parameters α) (other : Parameters β) :
    own.size = other.size ∧ own.SuitedBy other ↔ own.Matches other := by
  constructor
  · rintro ⟨hsize, hsuited⟩ name
    have hsubset : ∀ name ∈ own.names, name ∈ other.names := by
      intro name hname
      obtain ⟨p, hp⟩ := (own.mem_names_iff name).1 hname
      have hshape := hsuited (name, p) ((own.find?_eq_some_iff name p).1 hp)
      obtain ⟨m, hm, _⟩ := Option.map_eq_some_iff.1 hshape
      exact (other.mem_names_iff name).2 ⟨m, hm⟩
    cases hp : own.find? name with
    | some p => exact hsuited (name, p) ((own.find?_eq_some_iff name p).1 hp)
    | none =>
      -- No name is left over that could be foreign.
      have hforeign : name ∉ other.names := by
        rw [Catalog.mem_names_of_size hsize hsubset, ← own.find?_eq_none_iff]
        exact hp
      rw [(other.find?_eq_none_iff name).2 hforeign]
      rfl
  · intro hmatches
    refine ⟨Catalog.size_of_mem_names hmatches.mem_names, fun entry hentry => ?_⟩
    rw [hmatches entry.1, (own.find?_eq_some_iff entry.1 entry.2).2 hentry]
    rfl

/-- The value, when there are as many entries on both sides and none of this side is
unsuited. Otherwise the refusal for other numbers of entries, or for the first name
that is not suited. -/
def compared (own : Parameters α) (other : Parameters β) (sizes : NetworkError) (value : γ) :
    Except NetworkError γ :=
  if own.size = other.size then
    match own.mismatch? other with
    | some name => .error (.unsuitableParameter name)
    | none => .ok value
  else .error sizes

section Compared

variable {own : Parameters α} {other : Parameters β} {sizes : NetworkError} {value : γ}

/-- Exactly the catalogs that match pass the comparison. -/
theorem compared_eq_ok_iff {result : γ} :
    own.compared other sizes value = .ok result ↔ own.Matches other ∧ result = value := by
  rw [← suitedBy_and_size_iff, ← mismatch?_eq_none_iff_suitedBy, compared]
  by_cases hsize : own.size = other.size
  · cases hmismatch : own.mismatch? other <;> simp [hsize, eq_comm]
  · simp [hsize]

/-- The sizes are compared first, then the names of this side in their order. -/
theorem compared_eq_error_iff {cause : NetworkError} :
    own.compared other sizes value = .error cause ↔
      (own.size ≠ other.size ∧ cause = sizes) ∨
      (own.size = other.size ∧
        ∃ name, own.FirstUnsuited other name ∧ cause = .unsuitableParameter name) := by
  simp only [← mismatch?_eq_some_iff]
  rw [compared]
  by_cases hsize : own.size = other.size
  · cases hmismatch : own.mismatch? other <;> simp [hsize, eq_comm]
  · simp [hsize, eq_comm]

end Compared

/-- The comparison does not depend on the order of the other catalog. -/
theorem mismatch?_of_perm {other other' : Parameters β} (own : Parameters α)
    (h : other.entries.Perm other'.entries) : own.mismatch? other = own.mismatch? other' := by
  have hshapes : ∀ name shape, other.hasShape name shape = other'.hasShape name shape := by
    intro name shape
    rw [hasShape, hasShape, Catalog.find?_of_perm h]
  unfold mismatch?
  simp only [hshapes]

end Parameters

end DeferredReward
