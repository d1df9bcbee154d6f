import DeferredReward.Parameters
import Mathlib.Data.List.Basic

/-!
# Catalogs as finite maps

What the operations of a catalog do to the values that can be found in it, and
the layout of a catalog of matrices: its names in order with the shape under
each. Two catalogs of one layout can be combined entry by entry, whatever their
elements are.
-/

namespace DeferredReward

namespace Catalog

variable {β γ ε : Type}

/-- The entries in order determine a catalog. -/
theorem ext_entries {c d : Catalog β} (h : c.entries = d.entries) : c = d := by
  cases c
  cases d
  cases h
  rfl

/-- A name is listed exactly when something can be found under it. -/
theorem mem_names_iff (c : Catalog β) (name : String) :
    name ∈ c.names ↔ ∃ value, c.find? name = some value := by
  constructor
  · intro h
    obtain ⟨⟨_, value⟩, hmem, rfl⟩ := List.mem_map.1 h
    exact ⟨value, (c.find?_eq_some_iff _ value).2 hmem⟩
  · rintro ⟨value, h⟩
    exact List.mem_map.2 ⟨_, (c.find?_eq_some_iff name value).1 h, rfl⟩

/-- Nothing can be found exactly under the names that are not listed. -/
theorem find?_eq_none_iff (c : Catalog β) (name : String) :
    c.find? name = none ↔ name ∉ c.names := by
  rw [mem_names_iff]
  cases c.find? name <;> simp

/-- The names in order and what can be found under them determine a catalog. -/
theorem ext_find? {c d : Catalog β} (hnames : c.names = d.names)
    (hfind : ∀ name, c.find? name = d.find? name) : c = d := by
  have hentries : ∀ e : Catalog β, e.entries.map (fun entry => (entry.1, some entry.2)) =
      e.names.map fun name => (name, e.find? name) := by
    intro e
    rw [names, List.map_map]
    refine List.map_congr_left fun entry hentry => ?_
    change (entry.1, some entry.2) = (entry.1, e.find? entry.1)
    rw [(e.find?_eq_some_iff entry.1 entry.2).2 hentry]
  have hfun : (fun name => (name, c.find? name)) = fun name => (name, d.find? name) := by
    funext name
    rw [hfind]
  have hsome : c.entries.map (fun entry => (entry.1, some entry.2)) =
      d.entries.map fun entry => (entry.1, some entry.2) := by
    rw [hentries, hentries, hnames, hfun]
  refine ext_entries (List.map_injective_iff.2 ?_ hsome)
  rintro ⟨name, value⟩ ⟨other, otherValue⟩ h
  simpa using h

/-- What is found after a function has been applied to every entry. -/
theorem find?_mapEntries (f : String → β → γ) (c : Catalog β) (name : String) :
    (c.mapEntries f).find? name = (c.find? name).map (f name) := by
  cases h : c.find? name with
  | none =>
    rw [find?_eq_none_iff] at h
    rw [Option.map_none, find?_eq_none_iff, names_mapEntries]
    exact h
  | some value =>
    rw [find?_eq_some_iff] at h
    rw [Option.map_some, find?_eq_some_iff]
    exact List.mem_map.2 ⟨(name, value), h, rfl⟩

theorem upsert_eq_append (name : String) (value : β) {entries : List (String × β)}
    (h : name ∉ entries.map Prod.fst) : upsert name value entries = entries ++ [(name, value)] := by
  induction entries with
  | nil => rfl
  | cons entry rest ih =>
    rw [List.map_cons, List.mem_cons, not_or] at h
    rw [upsert, if_neg (Ne.symm h.1), ih h.2, List.cons_append]

/-- Distinct new names are filed behind those that are there. -/
theorem entries_insertAll {c : Catalog β} {entries : List (String × β)}
    (hnew : ∀ name ∈ entries.map Prod.fst, name ∉ c.names)
    (hdistinct : (entries.map Prod.fst).Nodup) :
    (c.insertAll entries).entries = c.entries ++ entries := by
  induction entries generalizing c with
  | nil => exact (List.append_nil _).symm
  | cons entry rest ih =>
    rw [List.map_cons, List.nodup_cons] at hdistinct
    have hhead : entry.1 ∉ c.names := hnew _ (List.mem_cons_self ..)
    have hentries : (c.insert entry.1 entry.2).entries = c.entries ++ [entry] :=
      upsert_eq_append entry.1 entry.2 hhead
    have hnames : (c.insert entry.1 entry.2).names = c.names ++ [entry.1] := by
      rw [names_insert, if_neg hhead]
    have hrest : ∀ name ∈ rest.map Prod.fst, name ∉ (c.insert entry.1 entry.2).names := by
      intro name hname hmem
      rw [hnames, List.mem_append, List.mem_singleton] at hmem
      cases hmem with
      | inl hold => exact hnew name (List.mem_cons_of_mem _ hname) hold
      | inr heq => exact hdistinct.1 (heq ▸ hname)
    change ((c.insert entry.1 entry.2).insertAll rest).entries = _
    rw [ih hrest hdistinct.2, hentries, List.append_assoc, List.singleton_append]

/-- A list of entries with distinct names is filed as it is. -/
theorem entries_ofList {entries : List (String × β)} (h : (entries.map Prod.fst).Nodup) :
    (ofList entries).entries = entries :=
  entries_insertAll (fun _ _ hmem => nomatch hmem) h

/-- After filing entries of distinct names, the filed value is found under each
of their names, and under every other name what was found before. -/
theorem find?_insertAll (c d : Catalog β) (name : String) :
    (c.insertAll d.entries).find? name = (d.find? name).or (c.find? name) := by
  -- By induction on the filed entries: a name that is filed is not filed again.
  obtain ⟨entries, nodup⟩ := d
  change (c.insertAll entries).find? name =
    (((entries.find? fun entry => entry.1 == name).map Prod.snd).or (c.find? name))
  induction entries generalizing c with
  | nil => rfl
  | cons entry rest ih =>
    rw [List.map_cons, List.nodup_cons] at nodup
    change ((c.insert entry.1 entry.2).insertAll rest).find? name = _
    rw [ih _ nodup.2, find?_insert, List.find?_cons]
    by_cases h : entry.1 = name
    · have habsent : rest.find? (fun entry => entry.1 == name) = none := by
        rw [List.find?_eq_none]
        intro other hother heq
        refine nodup.1 (List.mem_map.2 ⟨other, hother, ?_⟩)
        rw [h]
        exact beq_iff_eq.1 heq
      simp only [habsent, h, beq_self_eq_true, if_true, Option.map_none, Option.none_or,
        Option.map_some, Option.some_or]
    · have hne : (entry.1 == name) = false := beq_eq_false_iff_ne.2 h
      simp only [hne, if_neg (Ne.symm h)]

/-- What is found in a catalog that another one has been filed into. -/
theorem find?_merge (c d : Catalog β) (name : String) :
    (c.merge d).find? name = (d.find? name).or (c.find? name) :=
  find?_insertAll c d name

/-- Filing entries under names that are there keeps the names and their order. -/
theorem names_insertAll {c : Catalog β} {entries : List (String × β)}
    (h : ∀ name ∈ entries.map Prod.fst, name ∈ c.names) : (c.insertAll entries).names = c.names := by
  induction entries generalizing c with
  | nil => rfl
  | cons entry rest ih =>
    rw [List.map_cons, List.forall_mem_cons] at h
    have hnames : (c.insert entry.1 entry.2).names = c.names := by
      rw [names_insert, if_pos h.1]
    change ((c.insert entry.1 entry.2).insertAll rest).names = c.names
    rw [← hnames] at h ⊢
    exact ih h.2

/-- A catalog replaces one of the same names. -/
theorem merge_of_names {c d : Catalog β} (h : c.names = d.names) : c.merge d = d := by
  have hnames : (c.merge d).names = c.names := names_insertAll fun name hname => h ▸ hname
  refine ext_find? (hnames.trans h) fun name => ?_
  rw [find?_merge]
  cases hd : d.find? name with
  | none =>
    rw [find?_eq_none_iff, ← h] at hd
    rw [(c.find?_eq_none_iff name).2 hd, Option.or_none]
  | some value => rw [Option.some_or]

/-- A catalog replaces the empty one. -/
theorem merge_empty (d : Catalog β) : empty.merge d = d :=
  ext_entries (entries_ofList d.nodup)

theorem traverseEntries_eq_ok {f : String → β → Except ε γ} {g : String → β → γ}
    {entries : List (String × β)}
    (h : ∀ entry ∈ entries, f entry.1 entry.2 = .ok (g entry.1 entry.2)) :
    traverseEntries f entries = .ok (entries.map fun entry => (entry.1, g entry.1 entry.2)) := by
  induction entries with
  | nil => rfl
  | cons entry rest ih =>
    rw [traverseEntries, h entry (List.mem_cons_self ..),
      ih fun other hother => h other (List.mem_cons_of_mem _ hother)]
    rfl

/-- A traversal that never fails applies the function to every entry. -/
theorem traverse_eq_ok {f : String → β → Except ε γ} {g : String → β → γ} {c : Catalog β}
    (h : ∀ entry ∈ c.entries, f entry.1 entry.2 = .ok (g entry.1 entry.2)) :
    c.traverse f = .ok (c.mapEntries g) := by
  have hentries := traverseEntries_eq_ok h
  unfold traverse
  split
  · rename_i e he
    rw [hentries] at he
    cases he
  · rename_i results hresults
    rw [hentries] at hresults
    exact congrArg Except.ok (ext_entries (Except.ok.inj hresults).symm)

end Catalog

namespace Parameters

variable {α β : Type}

/-- The names in order, each with the shape of its matrix. -/
def layout (p : Parameters α) : List (String × Shape) :=
  p.entries.map fun entry => (entry.1, entry.2.shape)

/-- The layout lists exactly the shapes that can be found. -/
theorem shape?_eq_some_iff (p : Parameters α) (name : String) (shape : Shape) :
    (p.find? name).map Matrix.shape = some shape ↔ (name, shape) ∈ p.layout := by
  rw [Option.map_eq_some_iff, layout, List.mem_map]
  constructor
  · rintro ⟨m, hm, rfl⟩
    exact ⟨(name, m), (p.find?_eq_some_iff name m).1 hm, rfl⟩
  · rintro ⟨⟨_, m⟩, hm, heq⟩
    cases heq
    exact ⟨m, (p.find?_eq_some_iff _ m).2 hm, rfl⟩

/-- Catalogs of one layout hold matrices of one shape under each name. -/
theorem shape?_of_layout {p : Parameters α} {q : Parameters β} (h : p.layout = q.layout)
    (name : String) : (p.find? name).map Matrix.shape = (q.find? name).map Matrix.shape := by
  refine Option.ext fun shape => ?_
  rw [shape?_eq_some_iff, shape?_eq_some_iff, h]

theorem names_eq_layout (p : Parameters α) : p.names = p.layout.map Prod.fst := by
  rw [layout, List.map_map]
  rfl

/-- Catalogs of one layout have the same names in the same order. -/
theorem names_of_layout {p : Parameters α} {q : Parameters β} (h : p.layout = q.layout) :
    p.names = q.names := by
  rw [names_eq_layout, names_eq_layout, h]

/-- Catalogs of one layout are of one size. -/
theorem size_of_layout {p : Parameters α} {q : Parameters β} (h : p.layout = q.layout) :
    p.size = q.size := by
  have hlength := congrArg List.length h
  rwa [layout, layout, List.length_map, List.length_map] at hlength

/-- Taking every value from a catalog of the same layout gives that catalog. -/
theorem mapEntries_find? {p q : Parameters α} (h : q.layout = p.layout) :
    (p.mapEntries fun name own => (q.find? name).getD own) = q := by
  have hnames : (p.mapEntries fun name own => (q.find? name).getD own).names = q.names := by
    rw [Catalog.names_mapEntries, names_of_layout h]
  refine Catalog.ext_find? hnames fun name => ?_
  have hshape := shape?_of_layout h name
  rw [Catalog.find?_mapEntries]
  cases hp : p.find? name with
  | none =>
    rw [hp, Option.map_none, Option.map_eq_none_iff] at hshape
    rw [hshape, Option.map_none]
  | some own =>
    rw [hp, Option.map_some, Option.map_eq_some_iff] at hshape
    obtain ⟨m, hm, _⟩ := hshape
    rw [hm, Option.map_some, Option.getD_some]

/-- A function that keeps every shape keeps the layout. -/
theorem layout_mapEntries {f : String → Matrix α → Matrix β} {p : Parameters α}
    (h : ∀ entry ∈ p.entries, (f entry.1 entry.2).shape = entry.2.shape) :
    Parameters.layout (p.mapEntries f) = p.layout := by
  change (p.entries.map fun entry => (entry.1, f entry.1 entry.2)).map _ = _
  rw [List.map_map]
  refine List.map_congr_left fun entry hmem => ?_
  change (entry.1, (f entry.1 entry.2).shape) = _
  rw [h entry hmem]

/-- The comparison asks for the shape under the name. -/
theorem hasShape_iff (p : Parameters α) (name : String) (shape : Shape) :
    p.hasShape name shape = true ↔ (p.find? name).map Matrix.shape = some shape := by
  unfold hasShape
  cases p.find? name <;> simp

/-- Catalogs of one layout do not differ in any name or shape. -/
theorem mismatch?_of_layout {p : Parameters α} {q : Parameters β} (h : p.layout = q.layout) :
    p.mismatch? q = none := by
  rw [mismatch?_eq_none_iff]
  intro entry hentry
  rw [hasShape_iff, ← shape?_of_layout h]
  rw [(p.find?_eq_some_iff entry.1 entry.2).2 hentry, Option.map_some]

/-- Without a mismatch every name of the one can be found in the other, with
the same shape. -/
theorem find?_of_mismatch? {own : Parameters α} {other : Parameters β}
    (h : own.mismatch? other = none) {entry : String × Matrix α} (hentry : entry ∈ own.entries) :
    ∃ m, other.find? entry.1 = some m ∧ m.shape = entry.2.shape := by
  have hshape := (mismatch?_eq_none_iff own other).1 h entry hentry
  rw [hasShape_iff, Option.map_eq_some_iff] at hshape
  exact hshape

/-- A name that can be found is fetched without a fault. -/
theorem fetch_eq_ok {p : Parameters α} {name : String} {m : Matrix α}
    (h : p.find? name = some m) : p.fetch name = .ok m := by
  rw [fetch, h]

end Parameters

end DeferredReward
