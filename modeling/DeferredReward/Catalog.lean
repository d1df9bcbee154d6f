/-!
# Catalogs: named values in order

A catalog holds values under distinct names and remembers the order in which
the names first appeared. Filing a value under a name that is already present
replaces the value and keeps its place. The names are distinct by type, so
looking up a name and walking the entries always agree.

Main statements: `find?_insert`, `names_insert`, `find?_eq_some_iff`.
-/

namespace DeferredReward

/-- Values under distinct names, in the order in which the names first appeared. -/
structure Catalog (β : Type) where
  /-- The names and their values in order. -/
  entries : List (String × β)
  /-- No name occurs twice. -/
  nodup : (entries.map Prod.fst).Nodup

namespace Catalog

variable {β γ : Type}

/-- The catalog without entries. -/
def empty : Catalog β := ⟨[], List.nodup_nil⟩

instance : Inhabited (Catalog β) := ⟨empty⟩

/-- The names in order. -/
def names (c : Catalog β) : List String := c.entries.map Prod.fst

/-- The number of entries. -/
def size (c : Catalog β) : Nat := c.entries.length

/-- The value under a name. -/
def find? (c : Catalog β) (name : String) : Option β :=
  (c.entries.find? fun entry => entry.1 == name).map Prod.snd

/-- The entries with `value` under `name`: in the place of the former value,
or at the end. -/
def upsert (name : String) (value : β) : List (String × β) → List (String × β)
  | [] => [(name, value)]
  | entry :: rest =>
    if entry.1 = name then (name, value) :: rest else entry :: upsert name value rest

theorem map_fst_upsert (name : String) (value : β) (entries : List (String × β)) :
    (upsert name value entries).map Prod.fst =
      if name ∈ entries.map Prod.fst then entries.map Prod.fst
      else entries.map Prod.fst ++ [name] := by
  induction entries with
  | nil => rfl
  | cons entry rest ih =>
    rw [upsert]
    by_cases h : entry.1 = name
    · simp [h]
    · have h' : ¬name = entry.1 := fun e => h e.symm
      simp only [h, if_false, List.map_cons, ih, List.mem_cons, h', false_or]
      split <;> rfl

/-- The catalog with `value` under `name`. -/
def insert (c : Catalog β) (name : String) (value : β) : Catalog β where
  entries := upsert name value c.entries
  nodup := by
    rw [map_fst_upsert]
    split
    · exact c.nodup
    · rename_i h
      exact List.nodup_append.2 ⟨c.nodup, by simp, by
        intro a ha b hb
        rw [List.mem_singleton.1 hb]
        exact fun e => h (e ▸ ha)⟩

/-- Inserting keeps the names in order and adds a new one at the end. -/
theorem names_insert (c : Catalog β) (name : String) (value : β) :
    (c.insert name value).names = if name ∈ c.names then c.names else c.names ++ [name] :=
  map_fst_upsert name value c.entries

/-- The catalog with the entries of a list filed one after the other. -/
def insertAll (c : Catalog β) (entries : List (String × β)) : Catalog β :=
  entries.foldl (fun c entry => c.insert entry.1 entry.2) c

/-- The catalog that files the entries of a list one after the other. -/
def ofList (entries : List (String × β)) : Catalog β := empty.insertAll entries

/-- The catalog with every entry of another filed into it. -/
def merge (c other : Catalog β) : Catalog β := c.insertAll other.entries

/-- The function applied to every name and value; names and order stay. -/
def mapEntries (f : String → β → γ) (c : Catalog β) : Catalog γ where
  entries := c.entries.map fun entry => (entry.1, f entry.1 entry.2)
  nodup := by
    have h : (c.entries.map fun entry => (entry.1, f entry.1 entry.2)).map Prod.fst =
        c.entries.map Prod.fst := by simp
    exact h ▸ c.nodup

/-- A function applied to the names and values of a list of entries in order,
until it fails. -/
def traverseEntries {ε : Type} (f : String → β → Except ε γ) :
    List (String × β) → Except ε (List (String × γ))
  | [] => .ok []
  | entry :: rest => do
    let value ← f entry.1 entry.2
    return (entry.1, value) :: (← traverseEntries f rest)

theorem map_fst_traverseEntries {ε : Type} {f : String → β → Except ε γ}
    {entries : List (String × β)} {results : List (String × γ)}
    (h : traverseEntries f entries = .ok results) :
    results.map Prod.fst = entries.map Prod.fst := by
  induction entries generalizing results with
  | nil =>
    cases h
    rfl
  | cons entry rest ih =>
    rw [traverseEntries] at h
    cases hv : f entry.1 entry.2 with
    | error e =>
      rw [hv] at h
      cases h
    | ok value =>
      cases hr : traverseEntries f rest with
      | error e =>
        rw [hv, hr] at h
        cases h
      | ok values =>
        rw [hv, hr] at h
        cases h
        rw [List.map_cons, List.map_cons, ih hr]

/-- The function applied to every name and value in order, until it fails. -/
def traverse {ε : Type} (f : String → β → Except ε γ) (c : Catalog β) : Except ε (Catalog γ) :=
  match h : traverseEntries f c.entries with
  | .error e => .error e
  | .ok entries => .ok ⟨entries, map_fst_traverseEntries h ▸ c.nodup⟩

/-- The function applied to every value. -/
def map (f : β → γ) (c : Catalog β) : Catalog γ := c.mapEntries fun _ value => f value

@[simp] theorem names_mapEntries (f : String → β → γ) (c : Catalog β) :
    (c.mapEntries f).names = c.names := by simp [names, mapEntries]

@[simp] theorem names_map (f : β → γ) (c : Catalog β) : (c.map f).names = c.names :=
  names_mapEntries _ c

/-- Looking up a name finds exactly the entry with that name. -/
theorem find?_eq_some_iff (c : Catalog β) (name : String) (value : β) :
    c.find? name = some value ↔ (name, value) ∈ c.entries := by
  obtain ⟨entries, nodup⟩ := c
  induction entries with
  | nil => simp [find?]
  | cons entry rest ih =>
    rw [List.map_cons, List.nodup_cons] at nodup
    have ih := ih nodup.2
    unfold find? at ih ⊢
    by_cases h : entry.1 = name
    · subst h
      have habsent : ∀ v, (entry.1, v) ∉ rest := fun v hv =>
        nodup.1 (List.mem_map.2 ⟨_, hv, rfl⟩)
      simp only [List.find?_cons, beq_self_eq_true, Option.map_some, Option.some.injEq,
        List.mem_cons, habsent, or_false]
      exact ⟨fun e => e ▸ rfl, fun e => congrArg Prod.snd e.symm⟩
    · have hne : ¬(name, value) = entry := fun e => h (congrArg Prod.fst e).symm
      simp only [List.find?_cons, beq_eq_false_iff_ne.2 h, List.mem_cons, hne, false_or]
      exact ih

/-- What is found after an insertion. -/
theorem find?_insert (c : Catalog β) (name other : String) (value : β) :
    (c.insert name value).find? other = if other = name then some value else c.find? other := by
  obtain ⟨entries, nodup⟩ := c
  unfold insert find?
  dsimp only
  clear nodup
  induction entries with
  | nil =>
    by_cases h : other = name
    · simp [upsert, h]
    · have h' : ¬name = other := fun e => h e.symm
      simp [upsert, h, h']
  | cons entry rest ih =>
    rw [upsert]
    by_cases he : entry.1 = name
    · rw [if_pos he, List.find?_cons]
      by_cases h : other = name
      · simp [h]
      · have h' : (name == other) = false := beq_eq_false_iff_ne.2 fun e => h e.symm
        simp only [h', h, if_false, List.find?_cons, he]
    · rw [if_neg he, List.find?_cons, List.find?_cons]
      by_cases h : entry.1 = other
      · subst h
        simp [he]
      · have h' : (entry.1 == other) = false := beq_eq_false_iff_ne.2 h
        simpa only [h'] using ih

end Catalog

end DeferredReward
