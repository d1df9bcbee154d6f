import DeferredReward.Proofs.Network.Loading
import DeferredReward.Proofs.Parameters.Elements

/-!
# Catalogs that have a blend

Two catalogs have a blend exactly when they have the same names with the same
shapes, in whatever order either lists them. Only the names of the leading one are
looked up; as there are no more entries on the other side, none of them is left out.
The blend follows the order of the leading catalog, and every network whose
parameters are the other one takes it.

The entries are blended one after the other, each filed as soon as it is made, and
the first one that does not suit ends the work. No element of the result depends on
this: it is the blend that is made after all names and shapes have been compared.

Main statements: `blendInTurn_eq`, `install_of_blend`, `blend_outcome`.
-/

namespace DeferredReward

/-- Functions of the elements on both sides, put together where the shapes are equal. -/
theorem Matrix.combine_map {α : Type} [Zero α] (f : α → α → α) (g h : α → α) {a b : Matrix α}
    (hshape : b.shape = a.shape) :
    combine f (a.map g) (b.map h) = .ok (zip (fun x y => f (g x) (h y)) a b) := by
  obtain ⟨hrows, hcols⟩ : b.rows = a.rows ∧ b.cols = a.cols := by simpa [shape] using hshape
  rw [combine_of_shape_eq f (by simpa using hshape)]
  refine congrArg Except.ok (ofFn_congr fun i j hi hj => ?_)
  rw [rows_map] at hi
  rw [cols_map] at hj
  rw [entry_map g a hi hj, entry_map h b (hrows ▸ hi) (hcols ▸ hj)]

namespace Parameters

variable {α : Type} [Arithmetic α]

/-- A matrix blended with the one that follows under its name, if one does. -/
def blendWith (following : Parameters α) (weight : α) (name : String) (p : Matrix α) : Matrix α :=
  match following.find? name with
  | some q => Matrix.zip (fun x y => x * weight + y * (1 - weight)) p q
  | none => p

/-- Entries blended in their order, each filed behind those that have been made, up
to the first one that does not suit. -/
def blendFrom (following : Parameters α) (weight : α) :
    List (String × Matrix α) → Parameters α → Except Fault (Except NetworkError (Parameters α))
  | [], made => .ok (.ok made)
  | (name, p) :: rest, made =>
    match following.find? name with
    | some q =>
      if q.shape = p.shape then do
        let m ← Matrix.combine (· + ·) (p.map (· * weight)) (q.map (· * (1 - weight)))
        blendFrom following weight rest (made.insert name m)
      else .ok (.error (.unsuitableParameter name))
    | none => .ok (.error (.unsuitableParameter name))

/-- The blend made entry by entry. -/
def blendInTurn (leading following : Parameters α) (weight : α) :
    Except Fault (Except NetworkError (Parameters α)) :=
  if leading.size = following.size then blendFrom following weight leading.entries .empty
  else .ok (.error (.differentSizes following.size leading.size))

section Turns

variable {following : Parameters α} {weight : α} {entries : List (String × Matrix α)}

/-- Entries that all suit are blended without a fault. -/
theorem blendFrom_of_suited
    (h : ∀ entry ∈ entries, (following.find? entry.1).map Matrix.shape = some entry.2.shape)
    (made : Parameters α) :
    blendFrom following weight entries made = .ok (.ok (made.insertAll
      (entries.map fun entry => (entry.1, blendWith following weight entry.1 entry.2)))) := by
  induction entries generalizing made with
  | nil => rfl
  | cons entry rest ih =>
    obtain ⟨name, p⟩ := entry
    rw [List.forall_mem_cons] at h
    obtain ⟨q, hq, hshape⟩ := Option.map_eq_some_iff.1 h.1
    have hblend : blendWith following weight name p =
        Matrix.zip (fun x y => x * weight + y * (1 - weight)) p q := by rw [blendWith, hq]
    simp only [blendFrom, hq, hshape, if_true, Matrix.combine_map _ _ _ hshape]
    rw [bind_eq_of_ok rfl, ih h.2, ← hblend]
    rfl

/-- The first entry that does not suit ends the work. -/
theorem blendFrom_of_unsuited {before later : List (String × Matrix α)} {name : String}
    {p : Matrix α} (hentries : entries = before ++ (name, p) :: later)
    (h : ∀ entry ∈ before, (following.find? entry.1).map Matrix.shape = some entry.2.shape)
    (hname : (following.find? name).map Matrix.shape ≠ some p.shape) (made : Parameters α) :
    blendFrom following weight entries made = .ok (.error (.unsuitableParameter name)) := by
  subst hentries
  induction before generalizing made with
  | nil =>
    rw [List.nil_append, blendFrom]
    split
    · rename_i q hq
      rw [if_neg (by simpa [hq] using hname)]
    · rfl
  | cons entry rest ih =>
    obtain ⟨own, m⟩ := entry
    rw [List.forall_mem_cons] at h
    obtain ⟨q, hq, hshape⟩ := Option.map_eq_some_iff.1 h.1
    simp only [List.cons_append, blendFrom, hq, hshape, if_true, Matrix.combine_map _ _ _ hshape]
    exact ih h.2 _

/-- Comparing everything beforehand makes no difference to a blend. -/
theorem blendInTurn_eq (leading following : Parameters α) (weight : α) :
    leading.blendInTurn following weight = .ok (leading.blend following weight) := by
  unfold blendInTurn blend
  split
  · cases hmismatch : leading.mismatch? following with
    | some name =>
      obtain ⟨before, p, later, hentries, hbefore, hname⟩ :=
        (leading.mismatch?_eq_some_iff following name).1 hmismatch
      exact blendFrom_of_unsuited hentries hbefore hname _
    | none =>
      have hsuited := (leading.mismatch?_eq_none_iff_suitedBy following).1 hmismatch
      rw [blendFrom_of_suited hsuited]
      refine congrArg (Except.ok <| Except.ok ·) (Catalog.ext_entries ?_)
      exact Catalog.entries_ofList (leading.mapEntries (blendWith following weight)).nodup
  · rfl

end Turns

variable {leading following followed : Parameters α} {weight : α}

/-- What becomes of a blend is decided by comparing the catalogs. -/
theorem blend_eq_compared (leading following : Parameters α) (weight : α) :
    leading.blend following weight = leading.compared following
      (.differentSizes following.size leading.size)
      (leading.mapEntries (blendWith following weight)) := rfl

/-- Exactly the catalogs that match have a blend. -/
theorem blend_eq_ok_iff :
    leading.blend following weight = .ok followed ↔
      leading.Matches following ∧ followed = leading.mapEntries (blendWith following weight) := by
  rw [blend_eq_compared, compared_eq_ok_iff]

/-- A blend has the layout of the leading catalog. -/
theorem layout_of_blend (h : leading.blend following weight = .ok followed) :
    followed.layout = leading.layout := by
  obtain ⟨_, rfl⟩ := blend_eq_ok_iff.1 h
  refine layout_mapEntries fun entry _ => ?_
  rw [blendWith]
  split <;> rfl

/-- A network takes every blend that its parameters have followed. -/
theorem install_of_blend {network : Network α}
    (h : leading.blend network.parameters weight = .ok followed) :
    ∃ result, network.install followed = .ok (.ok result) ∧ network.Installed followed result := by
  have hmatches : network.parameters.Matches followed := by
    intro name
    rw [shape?_of_layout (layout_of_blend h)]
    exact ((blend_eq_ok_iff.1 h).1 name).symm
  obtain ⟨result, hinstall⟩ := (network.install_accepts_iff followed).2 hmatches
  exact ⟨result, hinstall, Network.installed_of_install hinstall⟩

/-- Other orders of the entries lead to a blend of the same entries. -/
theorem blend_of_perm {leading' following' : Parameters α}
    (hleading : leading'.entries.Perm leading.entries)
    (hfollowing : following'.entries.Perm following.entries)
    (h : leading.blend following weight = .ok followed) :
    ∃ followed', leading'.blend following' weight = .ok followed' ∧
      followed'.entries.Perm followed.entries := by
  obtain ⟨hmatches, rfl⟩ := blend_eq_ok_iff.1 h
  have hfind : following'.find? = following.find? := funext (Catalog.find?_of_perm hfollowing)
  have hwith : blendWith following' weight = blendWith following weight := by
    funext name p
    rw [blendWith, blendWith, hfind]
  refine ⟨_, blend_eq_ok_iff.2 ⟨hmatches.of_perm hleading hfollowing, rfl⟩, ?_⟩
  rw [hwith]
  exact hleading.map _

/-- Two catalogs have a blend exactly when they have the same names and under each
of them matrices of one shape. Made entry by entry it comes to the same. The blend has
the names of the leading catalog in its order, with their shapes, and its elements are
the weighted means of the elements in the same place under the same name; every network
with the following catalog as its parameters takes it. In other orders the catalogs have
a blend of the same entries. Without a blend the answer is that the numbers of entries
differ, and where they do not, the first leading entry that does not suit. -/
theorem blend_outcome (leading following : Parameters α) (weight : α) :
    leading.blendInTurn following weight = .ok (leading.blend following weight) ∧
    ((∃ followed, leading.blend following weight = .ok followed) ↔ leading.Matches following) ∧
    (∀ followed, leading.blend following weight = .ok followed →
      followed.layout = leading.layout ∧
      (∀ name row col, leading.Has name row col →
        followed.element name row col = leading.element name row col * weight +
          following.element name row col * (1 - weight)) ∧
      (∀ network : Network α, network.parameters = following →
        ∃ result, network.install followed = .ok (.ok result) ∧
          network.Installed followed result) ∧
      ∀ leading' following' : Parameters α, leading'.entries.Perm leading.entries →
        following'.entries.Perm following.entries →
        ∃ followed', leading'.blend following' weight = .ok followed' ∧
          followed'.entries.Perm followed.entries) ∧
    ∀ cause, leading.blend following weight = .error cause ↔
      (leading.size ≠ following.size ∧
        cause = .differentSizes following.size leading.size) ∨
      (leading.size = following.size ∧
        ∃ name, leading.FirstUnsuited following name ∧ cause = .unsuitableParameter name) := by
  refine ⟨blendInTurn_eq leading following weight, ?_, fun followed h => ⟨layout_of_blend h,
    fun _ _ _ => element_of_blend h, ?_, fun _ _ hleading hfollowing =>
      blend_of_perm hleading hfollowing h⟩, fun cause => ?_⟩
  · simp only [blend_eq_ok_iff, exists_and_left, exists_eq, and_true]
  · rintro network rfl
    exact install_of_blend h
  · rw [blend_eq_compared, compared_eq_error_iff]

/-- A row of two weights and a bias. -/
def weightsFirst : Parameters Float := .ofList [("w", .row #[1.0, 2.0]), ("b", .row #[4.0])]

/-- The same names and shapes in the other order. -/
def biasAhead : Parameters Float := .ofList [("b", .row #[0.0]), ("w", .row #[3.0, 0.0])]

/-- The transposed weights do not suit. -/
def transposedWeights : Parameters Float :=
  .ofList [("b", .row #[0.0]), ("w", .column #[3.0, 0.0])]

/-- A quarter of one catalog and three quarters of the other, whose order does not
count, while the shape of its weights does. -/
theorem blend_outcome_weightsFirst :
    (∃ followed, weightsFirst.blend biasAhead 0.25 = .ok followed ∧
      followed.names = ["w", "b"] ∧ followed.element "w" 0 0 = 2.5 ∧
      followed.element "b" 0 0 = 1.0) ∧
    weightsFirst.blend transposedWeights 0.25 = .error (.unsuitableParameter "w") := by
  obtain ⟨-, hmatches, hblend, -⟩ := blend_outcome weightsFirst biasAhead 0.25
  obtain ⟨-, -, -, hrefuses⟩ := blend_outcome weightsFirst transposedWeights 0.25
  have hsuited : weightsFirst.size = biasAhead.size ∧ weightsFirst.SuitedBy biasAhead := by
    refine ⟨rfl, (mismatch?_eq_none_iff_suitedBy _ _).1 ?_⟩
    decide +kernel
  obtain ⟨followed, hfollowed⟩ := hmatches.2 ((suitedBy_and_size_iff _ _).1 hsuited)
  obtain ⟨hlayout, helement, -⟩ := hblend followed hfollowed
  refine ⟨⟨followed, hfollowed, names_of_layout hlayout, ?_, ?_⟩, (hrefuses _).2 (.inr ⟨rfl, ?_⟩)⟩
  · rw [helement "w" 0 0 ⟨.row #[1.0, 2.0], rfl, by decide, by decide⟩]
    rfl
  · rw [helement "b" 0 0 ⟨.row #[4.0], rfl, by decide, by decide⟩]
    rfl
  · exact ⟨"w", (mismatch?_eq_some_iff _ _ _).1 (by decide +kernel), rfl⟩

end Parameters

end DeferredReward
