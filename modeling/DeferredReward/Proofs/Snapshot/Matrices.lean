import DeferredReward.Proofs.Catalog
import DeferredReward.Proofs.Json.Decimals

/-!
# Snapshots read back

The text of a catalog of matrices is read as that catalog when all elements are
finite: names, order, shapes and elements are those that were written. An element
that is not finite is written as the absent value, at which reading stops.

Main statements: `matrix_answers`, `parameters_answers`, `read_write`.
-/

namespace DeferredReward.Snapshot

open Json

/-- The element, if it is finite. -/
def finite? (x : Float) : Option Float := if x.isFinite then some x else none

/-- An element is read back, and reading stops at one that is not finite. -/
theorem element_answers (x : Float) :
    Opens (chars (ofFloat x)) ∧ Answers element (chars (ofFloat x)) (finite? x) := by
  unfold finite?
  by_cases hfinite : x.isFinite = true
  · rw [if_pos hfinite]
    exact ⟨opens_ofFloat hfinite, ofFloat_answers hfinite⟩
  · have hnull : ofFloat x = .null := if_neg hfinite
    rw [if_neg hfinite, hnull]
    exact ⟨⟨'n', ['u', 'l', 'l'], rfl, rfl, by decide, by decide⟩, fun rest _ => ⟨_, rfl⟩⟩

/-- The elements of a sequence are read back when all are finite. -/
theorem elementList_answers (xs : List Float) :
    Answers elementList (chars (.array (xs.map ofFloat))) (xs.mapM finite?) := by
  intro rest _
  have hitems : ∀ i ∈ xs.map fun x => (chars (ofFloat x), finite? x),
      Opens i.1 ∧ Answers element i.1 i.2 := by
    intro i hi
    obtain ⟨x, _, rfl⟩ := List.mem_map.1 hi
    exact element_answers x
  have helements := elements_answers _ hitems rest
  rw [List.map_map, List.mapM_map] at helements
  rw [chars_array_append, List.map_map]
  exact helements

/-- Both sizes are read back. -/
theorem sizes_answers {shape : Shape} (hrows : shape.rows < UInt64.size)
    (hcols : shape.cols < UInt64.size) :
    Answers sizes (chars (.array [ofNat shape.rows, ofNat shape.cols])) (some shape) := by
  intro rest _
  have hfirst : nextElement true (separated true
      ([ofNat shape.rows, ofNat shape.cols].map chars) ++ ']' :: rest) =
        .ok (true, chars (ofNat shape.rows) ++
          (separated false [chars (ofNat shape.cols)] ++ ']' :: rest)) :=
    nextElement_separated (opens_ofNat shape.rows) true [chars (ofNat shape.cols)] (']' :: rest)
  have hrowsRead : unsigned UInt64.size "usize" (chars (ofNat shape.rows) ++
      (separated false [chars (ofNat shape.cols)] ++ ']' :: rest)) =
        .ok (shape.rows, separated false [chars (ofNat shape.cols)] ++ ']' :: rest) :=
    unsigned_answers hrows hrows "usize" _ (follows_separated (.bracket rest) _)
  have hsecond : nextElement false (separated false [chars (ofNat shape.cols)] ++ ']' :: rest) =
      .ok (true, chars (ofNat shape.cols) ++ ']' :: rest) :=
    nextElement_separated (opens_ofNat shape.cols) false [] (']' :: rest)
  have hcolsRead : unsigned UInt64.size "usize" (chars (ofNat shape.cols) ++ ']' :: rest) =
        .ok (shape.cols, ']' :: rest) :=
    unsigned_answers hcols hcols "usize" _ (.bracket rest)
  have hstart : ∀ text, valueStart ('[' :: text) = .ok ('[', text) := fun _ => rfl
  have hclose : closeSequence (']' :: rest) = .ok ((), rest) := rfl
  rw [chars_array_append]
  change sizes _ = .ok (shape, rest)
  unfold sizes
  rw [bind_eq_of_ok (hstart _)]
  simp only [bind, Except.bind, Nat.reduceBEq, hfirst, hrowsRead, hsecond, hcolsRead, hclose]
  rfl

/-- The sizes and the number of elements can be addressed. -/
def Addressable (shape : Shape) : Prop := max shape.rows 1 * max shape.cols 1 < UInt64.size / 2

instance (shape : Shape) : Decidable (Addressable shape) := inferInstanceAs (Decidable (_ < _))

theorem Addressable.rows_lt {shape : Shape} (h : Addressable shape) :
    shape.rows < UInt64.size := by
  have hmul := Nat.mul_le_mul (Nat.le_max_left shape.rows 1) (Nat.le_max_right shape.cols 1)
  unfold Addressable at h
  omega

theorem Addressable.cols_lt {shape : Shape} (h : Addressable shape) :
    shape.cols < UInt64.size := by
  have hmul := Nat.mul_le_mul (Nat.le_max_right shape.rows 1) (Nat.le_max_left shape.cols 1)
  unfold Addressable at h
  omega

/-- A matrix is put together from its shape and elements. -/
theorem assemble_eq (m : Matrix Float) (h : Addressable m.shape) :
    assemble m.shape m.data.toList = .ok m := by
  have harray : Matrix.ofArray? m.shape m.data = some m := by
    exact dif_pos m.size_data
  unfold assemble
  rw [Array.toArray_toList, harray]
  exact if_pos h

/-- The matrix, if all elements are finite. -/
def finiteMatrix? (m : Matrix Float) : Option (Matrix Float) :=
  (m.data.toList.mapM finite?).map fun _ => m

/-- A function that keeps what it does not drop keeps all of a list or drops it. -/
theorem mapM_of_keeps {β : Type} {f : β → Option β} (hkeeps : ∀ x y, f x = some y → y = x)
    {xs ys : List β} (h : xs.mapM f = some ys) : ys = xs ∧ ∀ x ∈ xs, f x = some x := by
  induction xs generalizing ys with
  | nil => exact ⟨(Option.some.inj h).symm, fun _ hmem => nomatch hmem⟩
  | cons x xs ih =>
    rw [List.mapM_cons] at h
    obtain ⟨y, hy, htail⟩ := Option.bind_eq_some_iff.1 h
    obtain ⟨rest, hrest, hwhole⟩ := Option.bind_eq_some_iff.1 htail
    obtain ⟨rfl, hall⟩ := ih hrest
    obtain rfl := hkeeps x y hy
    exact ⟨(Option.some.inj hwhole).symm, List.forall_mem_cons.2 ⟨hy, hall⟩⟩

theorem finite?_keeps (x y : Float) (h : finite? x = some y) : y = x := by
  unfold finite? at h
  split at h
  · exact (Option.some.inj h).symm
  · cases h

theorem finite?_eq_some_iff {x : Float} : finite? x = some x ↔ x.isFinite = true := by
  unfold finite?
  split <;> simp [*]

theorem finiteMatrix?_keeps (m m' : Matrix Float) (h : finiteMatrix? m = some m') : m' = m := by
  obtain ⟨_, _, h⟩ := Option.map_eq_some_iff.1 h
  exact h.symm

/-- A matrix is kept when all its elements are finite. -/
theorem finiteMatrix?_eq_some_iff {m : Matrix Float} :
    finiteMatrix? m = some m ↔ ∀ x ∈ m.data.toList, x.isFinite = true := by
  constructor
  · intro h x hx
    obtain ⟨elements, helements, _⟩ := Option.map_eq_some_iff.1 h
    exact finite?_eq_some_iff.1 ((mapM_of_keeps finite?_keeps helements).2 x hx)
  · intro h
    rw [finiteMatrix?, mapM_of_kept fun x hx => finite?_eq_some_iff.2 (h x hx)]
    rfl

theorem colon_eq (rest : List Char) : colon (':' :: rest) = .ok ((), rest) := rfl

section Fields

variable (fuel : Nat) (isFirst : Bool) (fields : Fields) (texts : List (List Char))
  {rest : List Char}

/-- The version is read. -/
theorem fieldsFrom_version (hrest : Follows rest) :
    fieldsFrom (fuel + 1) isFirst fields
        (separated isFirst (memberText "v" (chars (ofNat 1)) :: texts) ++ rest) =
      fieldsFrom fuel false { fields with versioned := true } (separated false texts ++ rest) := by
  have hversion : unsigned 256 "u8" (chars (ofNat 1) ++ (separated false texts ++ rest)) =
      .ok (1, separated false texts ++ rest) :=
    unsigned_answers (by decide) (by decide) "u8" _ (follows_separated hrest texts)
  rw [fieldsFrom, bind_eq_of_ok (nextName_separated "v" _ isFirst texts rest)]
  simp only []
  rw [bind_eq_of_ok (colon_eq _)]
  exact bind_eq_of_ok hversion

/-- The sizes are read. -/
theorem fieldsFrom_sizes {shape : Shape} (hrows : shape.rows < UInt64.size)
    (hcols : shape.cols < UInt64.size) (hrest : Follows rest) :
    fieldsFrom (fuel + 1) isFirst fields
        (separated isFirst
          (memberText "dim" (chars (.array [ofNat shape.rows, ofNat shape.cols])) :: texts) ++
            rest) =
      fieldsFrom fuel false { fields with shape := some shape }
        (separated false texts ++ rest) := by
  have hsizes : sizes (chars (.array [ofNat shape.rows, ofNat shape.cols]) ++
      (separated false texts ++ rest)) = .ok (shape, separated false texts ++ rest) :=
    sizes_answers hrows hcols _ (follows_separated hrest texts)
  rw [fieldsFrom, bind_eq_of_ok (nextName_separated "dim" _ isFirst texts rest)]
  simp only []
  rw [bind_eq_of_ok (colon_eq _)]
  exact bind_eq_of_ok hsizes

/-- The elements are read, or reading stops. -/
theorem fieldsFrom_elements (xs : List Float) (hrest : Follows rest) {rest' : List Char}
    {answer : List Float → Option Fields}
    (hnext : ∀ elements, xs.mapM finite? = some elements →
      Yields (fieldsFrom fuel false { fields with elements := some elements }
        (separated false texts ++ rest)) rest' (answer elements)) :
    Yields (fieldsFrom (fuel + 1) isFirst fields
        (separated isFirst (memberText "data" (chars (.array (xs.map ofFloat))) :: texts) ++
          rest)) rest' ((xs.mapM finite?).bind answer) := by
  have helements := elementList_answers xs _ (follows_separated hrest texts)
  rw [fieldsFrom, bind_eq_of_ok (nextName_separated "data" _ isFirst texts rest)]
  simp only []
  rw [bind_eq_of_ok (colon_eq _)]
  exact helements.bind hnext

end Fields

/-- The fields of a matrix are read, or reading stops at an element that is not finite. -/
theorem fieldsFrom_answers {m : Matrix Float} (haddressable : Addressable m.shape) (fuel : Nat)
    (rest : List Char) :
    Yields (fieldsFrom (fuel + 4) true ⟨false, none, none⟩
        (separated true [memberText "v" (chars (ofNat 1)),
          memberText "dim" (chars (.array [ofNat m.rows, ofNat m.cols])),
          memberText "data" (chars (.array (m.data.toList.map ofFloat)))] ++ '}' :: rest)) rest
      ((m.data.toList.mapM finite?).bind fun elements =>
        some ⟨true, some m.shape, some elements⟩) := by
  have hrest : Follows ('}' :: rest) := .brace rest
  have hsizes := fieldsFrom_sizes (fuel + 2) false ⟨true, none, none⟩
    [memberText "data" (chars (.array (m.data.toList.map ofFloat)))] haddressable.rows_lt
    haddressable.cols_lt hrest
  rw [fieldsFrom_version _ _ _ _ hrest]
  rw [Matrix.shape] at hsizes
  rw [hsizes]
  exact fieldsFrom_elements _ _ _ _ _ hrest fun elements _ => rfl

/-- A matrix is read back when all its elements are finite, and reading stops otherwise. -/
theorem matrix_answers {m : Matrix Float} (haddressable : Addressable m.shape) :
    Answers matrix (chars (ofMatrix m)) (finiteMatrix? m) := by
  intro rest _
  have hfields := fieldsFrom_answers haddressable
  rw [ofMatrix, chars_object_append]
  have hlength := length_le_separated true [memberText "v" (chars (ofNat 1)),
    memberText "dim" (chars (.array [ofNat m.rows, ofNat m.cols])),
    memberText "data" (chars (.array (m.data.toList.map ofFloat)))] (by simp [memberText])
  change Yields (matrix ('{' :: (separated true [memberText "v" (chars (ofNat 1)),
    memberText "dim" (chars (.array [ofNat m.rows, ofNat m.cols])),
    memberText "data" (chars (.array (m.data.toList.map ofFloat)))] ++ '}' :: rest))) rest
      (finiteMatrix? m)
  generalize separated true [memberText "v" (chars (ofNat 1)),
    memberText "dim" (chars (.array [ofNat m.rows, ofNat m.cols])),
    memberText "data" (chars (.array (m.data.toList.map ofFloat)))] = text at hfields hlength ⊢
  obtain ⟨fuel, hfuel⟩ : ∃ fuel, (text ++ '}' :: rest).length + 1 = fuel + 4 := by
    refine ⟨(text ++ '}' :: rest).length - 3, ?_⟩
    simp only [List.length_append, List.length_cons, List.length_nil] at hlength ⊢
    omega
  have hstart : ∀ text, valueStart ('{' :: text) = .ok ('{', text) := fun _ => rfl
  have hanswer : finiteMatrix? m = ((m.data.toList.mapM finite?).bind fun elements =>
      some (⟨true, some m.shape, some elements⟩ : Fields)).bind fun fields => some m := by
    unfold finiteMatrix?
    cases m.data.toList.mapM finite? <;> rfl
  unfold matrix
  rw [bind_eq_of_ok (hstart _), hanswer]
  have hread := hfields fuel rest
  rw [← hfuel] at hread
  refine hread.bind fun fields hsome => ?_
  obtain ⟨elements, helements, hfieldsEq⟩ := Option.bind_eq_some_iff.1 hsome
  cases hfieldsEq
  have hwhole : ofFields ⟨true, some m.shape, some elements⟩ = .ok m := by
    rw [(mapM_of_keeps finite?_keeps helements).1]
    exact assemble_eq m haddressable
  dsimp only
  rw [hwhole]
  rfl

/-- Every element of every matrix is finite. -/
def AllFinite (p : Parameters Float) : Prop :=
  ∀ entry ∈ p.entries, ∀ x ∈ entry.2.data.toList, x.isFinite = true

instance (p : Parameters Float) : Decidable (AllFinite p) :=
  inferInstanceAs (Decidable (∀ entry ∈ p.entries, ∀ x ∈ entry.2.data.toList, _))

/-- The elements of every matrix can be addressed, as those of all matrices in a memory can. -/
def Storable (p : Parameters Float) : Prop := ∀ entry ∈ p.entries, Addressable entry.2.shape

instance (p : Parameters Float) : Decidable (Storable p) :=
  inferInstanceAs (Decidable (∀ entry ∈ p.entries, _))

/-- The catalog, if all its elements are finite. -/
def finiteParameters? (p : Parameters Float) : Option (Parameters Float) :=
  (p.entries.mapM fun entry => (finiteMatrix? entry.2).map (entry.1, ·)).map fun _ => p

theorem finiteParameters?_keeps (p p' : Parameters Float) (h : finiteParameters? p = some p') :
    p' = p := by
  obtain ⟨_, _, h⟩ := Option.map_eq_some_iff.1 h
  exact h.symm

theorem namedMatrix_keeps (entry entry' : String × Matrix Float)
    (h : (finiteMatrix? entry.2).map (entry.1, ·) = some entry') : entry' = entry := by
  obtain ⟨m, hm, rfl⟩ := Option.map_eq_some_iff.1 h
  rw [finiteMatrix?_keeps entry.2 m hm]

/-- A catalog is kept when all its elements are finite. -/
theorem finiteParameters?_eq_some_iff {p : Parameters Float} :
    finiteParameters? p = some p ↔ AllFinite p := by
  constructor
  · intro h entry hentry
    obtain ⟨entries, hentries, _⟩ := Option.map_eq_some_iff.1 h
    obtain ⟨m, hm, hsame⟩ := Option.map_eq_some_iff.1
      ((mapM_of_keeps namedMatrix_keeps hentries).2 entry hentry)
    rw [← hsame] at hm ⊢
    exact finiteMatrix?_eq_some_iff.1 hm
  · intro h
    have hkept : ∀ entry ∈ p.entries, (finiteMatrix? entry.2).map (entry.1, ·) = some entry := by
      intro entry hentry
      rw [finiteMatrix?_eq_some_iff.2 (h entry hentry)]
      rfl
    rw [finiteParameters?, mapM_of_kept hkept]
    rfl

/-- A catalog is read back when all its elements are finite, and reading stops otherwise. -/
theorem parameters_answers {p : Parameters Float} (h : Storable p) :
    Answers parameters (chars (ofParameters p)) (finiteParameters? p) := by
  intro rest _
  have hitems : ∀ i ∈ p.entries.map fun entry =>
      (entry.1, chars (ofMatrix entry.2), finiteMatrix? entry.2), Answers matrix i.2.1 i.2.2 := by
    intro i hi
    obtain ⟨entry, hentry, rfl⟩ := List.mem_map.1 hi
    exact matrix_answers (h entry hentry)
  have hmembers := members_answers _ hitems rest
  rw [List.map_map, List.mapM_map] at hmembers
  have hstart : ∀ text, valueStart ('{' :: text) = .ok ('{', text) := fun _ => rfl
  have hanswer : finiteParameters? p =
      (p.entries.mapM fun entry => (finiteMatrix? entry.2).map (entry.1, ·)).bind
        fun _ => some p := by
    unfold finiteParameters?
    cases p.entries.mapM fun entry => (finiteMatrix? entry.2).map (entry.1, ·) <;> rfl
  rw [ofParameters, chars_object_append, List.map_map, hanswer]
  unfold parameters
  rw [bind_eq_of_ok (hstart _)]
  refine hmembers.bind fun entries hentries => ?_
  obtain ⟨rfl, _⟩ := mapM_of_keeps namedMatrix_keeps hentries
  have hcatalog : Catalog.ofList p.entries = p :=
    Catalog.ext_entries (Catalog.entries_ofList p.nodup)
  exact congrArg (fun catalog => Except.ok (catalog, rest)) hcatalog

/-- What is written of a catalog reads back as that catalog when all its elements are finite, and
cannot be read otherwise. -/
theorem read_write {p : Parameters Float} (h : Storable p) :
    (AllFinite p → read (write p) = .ok p) ∧
      (¬AllFinite p → ∃ error, read (write p) = .error error) := by
  have hanswers := parameters_answers h [] .nothing
  have htext : (write p).toList = chars (ofParameters p) ++ [] := by
    rw [write, text, String.toList_ofList, List.append_nil]
  constructor
  · intro hfinite
    rw [finiteParameters?_eq_some_iff.2 hfinite, ← htext] at hanswers
    have hread : parameters (write p).toList = .ok (p, []) := hanswers
    rw [read, document, hread]
    rfl
  · intro hinfinite
    have hnone : finiteParameters? p = none := by
      cases hsome : finiteParameters? p with
      | none => rfl
      | some p' =>
        obtain rfl := finiteParameters?_keeps p p' hsome
        exact absurd (finiteParameters?_eq_some_iff.1 hsome) hinfinite
    rw [hnone, ← htext] at hanswers
    obtain ⟨stop, hstop⟩ := hanswers
    rw [read, document, hstop]
    exact ⟨_, rfl⟩

end DeferredReward.Snapshot
