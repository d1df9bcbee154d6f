import DeferredReward.Proofs.Snapshot.Matrices
import DeferredReward.Proofs.Storage.Tree
import DeferredReward.Snapshot.Store

/-!
# Saving and loading snapshots

A snapshot can be saved wherever a file can be written, whatever its elements
are. It can be loaded when they are all finite, and gives back the catalog that
was saved, which saved again gives the same text. When an element is not finite,
loading tells that the content is that of no snapshot, although saving has told
nothing.

Main statements: `save_eq`, `load_of_read`, `load_save`.
-/

namespace DeferredReward.Snapshot

open FileTree (Writable)

/-- A catalog is saved by writing its text; when that fails the files are as before. -/
theorem save_eq (tree : FileTree) (path : Path) (p : Parameters Float) :
    (SnapshotStore.save path p : StateM FileTree _).run tree =
      match tree.write path (write p) with
      | .ok tree' => (.ok (), tree')
      | .error cause => (.error (.file path cause), tree) := by
  dsimp only [SnapshotStore.save]
  rw [StateT.run_bind, FileTree.run_write]
  cases tree.write path (write p) <;> rfl

/-- A catalog is saved where its text is written. -/
theorem save_of_write {tree tree' : FileTree} {path : Path} {p : Parameters Float}
    (h : tree.write path (write p) = .ok tree') :
    (SnapshotStore.save path p : StateM FileTree _).run tree = (.ok (), tree') := by
  rw [save_eq, h]

/-- A catalog is loaded by reading the text of a file. -/
theorem load_of_read {tree : FileTree} {path : Path} {text : String}
    (h : tree.read path = .ok text) :
    (SnapshotStore.load path : StateM FileTree _).run tree =
      (match read text with
        | .ok p => .ok p
        | .error error => .error (.content path (.unreadable error)), tree) := by
  have hread : (FileSystem.read path : StateM FileTree _).run tree = (.ok text, tree) := by
    rw [FileTree.run_read, h]
  dsimp only [SnapshotStore.load]
  rw [StateT.run_bind, hread]
  cases hparameters : read text <;>
  · change StateT.run _ tree = _
    dsimp only
    rw [hparameters]
    rfl

/-- Wherever a file can be written a catalog can be saved. The file gives the catalog back when
all elements are finite and only then; otherwise loading finds that its text is that of no
snapshot. What has been loaded is saved, anywhere, as the same text. -/
theorem load_save {p : Parameters Float} (hp : Storable p) {tree : FileTree} {path : Path}
    (hpath : Writable tree path) :
    ∃ tree' text,
      (SnapshotStore.save path p : StateM FileTree _).run tree = (.ok (), tree') ∧
      tree'.read path = .ok text ∧
      ((SnapshotStore.load path : StateM FileTree _).run tree' = (.ok p, tree') ↔ AllFinite p) ∧
      (¬AllFinite p → ∃ error, (SnapshotStore.load path : StateM FileTree _).run tree' =
        ((.error (.content path (.unreadable error)) : Except _ (Parameters Float)), tree')) ∧
      ∀ p' : Parameters Float,
        (SnapshotStore.load path : StateM FileTree _).run tree' = (.ok p', tree') →
        ∀ other, Writable tree' other → ∃ tree'',
          (SnapshotStore.save other p' : StateM FileTree _).run tree' = (.ok (), tree'') ∧
          tree''.read other = .ok text := by
  obtain ⟨hfinite, hinfinite⟩ := read_write hp
  obtain ⟨tree', hwrite⟩ := FileTree.exists_write_of_writable hpath (write p)
  have hread := FileTree.read_of_write hwrite
  have hload := load_of_read hread
  -- Whatever is loaded is the catalog that was saved.
  have hsame : ∀ p' : Parameters Float,
      (SnapshotStore.load path : StateM FileTree _).run tree' = (.ok p', tree') →
        AllFinite p ∧ p' = p := by
    intro p' hp'
    by_cases h : AllFinite p
    · rw [hload, hfinite h] at hp'
      cases hp'
      exact ⟨h, rfl⟩
    · obtain ⟨error, herror⟩ := hinfinite h
      rw [hload, herror] at hp'
      cases hp'
  refine ⟨tree', write p, save_of_write hwrite, hread, ⟨fun h => (hsame p h).1, fun h => ?_⟩, ?_,
    ?_⟩
  · rw [hload, hfinite h]
  · intro h
    obtain ⟨error, herror⟩ := hinfinite h
    exact ⟨error, by rw [hload, herror]⟩
  · intro p' hp' other hother
    obtain ⟨_, rfl⟩ := hsame p' hp'
    obtain ⟨tree'', hwrite'⟩ := FileTree.exists_write_of_writable hother (write p')
    exact ⟨tree'', save_of_write hwrite', FileTree.read_of_write hwrite'⟩

theorem nodup_oddNames : ["\" \\ \u0007", "π"].Nodup := by
  decide

/-- Two matrices, the second without elements, under names that are not plain text. -/
def oddCatalog (x : Float) : Parameters Float where
  entries := [("\" \\ \u0007", ⟨1, 2, #[-0.0, x], rfl⟩), ("π", ⟨0, 3, #[], rfl⟩)]
  nodup := nodup_oddNames

theorem storable_oddCatalog (x : Float) : Storable (oddCatalog x) := by
  intro entry hentry
  simp only [oddCatalog, List.mem_cons, List.not_mem_nil, or_false] at hentry
  obtain rfl | rfl := hentry
  · exact (by decide : max 1 1 * max 2 1 < UInt64.size / 2)
  · exact (by decide : max 0 1 * max 3 1 < UInt64.size / 2)

theorem allFinite_oddCatalog_iff (x : Float) : AllFinite (oddCatalog x) ↔ x.isFinite = true := by
  have hzero : (-0.0 : Float).isFinite = true := by decide +kernel
  simp [AllFinite, oddCatalog, hzero]

theorem writable_empty : Writable FileTree.empty ⟨"snapshot.json"⟩ :=
  FileTree.writable_of_empty (by decide +kernel) (by decide +kernel)

/-- Minus zero and a fraction are loaded as they were saved; an undefined element is saved too, but
not loaded. -/
theorem load_save_oddCatalog :
    (∃ tree',
      (SnapshotStore.save ⟨"snapshot.json"⟩ (oddCatalog 0.1) : StateM FileTree _).run .empty =
        (.ok (), tree') ∧
      (SnapshotStore.load ⟨"snapshot.json"⟩ : StateM FileTree _).run tree' =
        (.ok (oddCatalog 0.1), tree')) ∧
    ∃ tree' error,
      (SnapshotStore.save ⟨"snapshot.json"⟩ (oddCatalog (0.0 / 0.0)) :
        StateM FileTree _).run .empty = (.ok (), tree') ∧
      (SnapshotStore.load ⟨"snapshot.json"⟩ : StateM FileTree _).run tree' =
        ((.error (.content ⟨"snapshot.json"⟩ (.unreadable error)) : Except _ (Parameters Float)),
          tree') := by
  have hfinite : (0.1 : Float).isFinite = true := by decide +kernel
  have hundefined : ¬(0.0 / 0.0 : Float).isFinite = true := by decide +kernel
  rw [← allFinite_oddCatalog_iff] at hfinite hundefined
  obtain ⟨tree, _, hsave, _, hload, _⟩ := load_save (storable_oddCatalog 0.1) writable_empty
  obtain ⟨tree', _, hsave', _, _, hfails, _⟩ :=
    load_save (storable_oddCatalog (0.0 / 0.0)) writable_empty
  obtain ⟨error, herror⟩ := hfails hundefined
  exact ⟨⟨tree, hsave, hload.2 hfinite⟩, tree', error, hsave', herror⟩

end DeferredReward.Snapshot
