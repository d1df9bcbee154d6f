import DeferredReward.Proofs.Fault
import DeferredReward.Storage.Tree
import Mathlib.Data.List.Basic

/-!
# How the tree of files changes

Making folders adds folders and nothing else, and a node put where no folder is
takes no folder away. So a way that can be followed once can be followed from
then on and leads to the same place, which can be told from the names alone, and
folders that have been made need not be made again.

Main statements: `node?_put`, `grows_makeFolders`, `makeFolders_again`.
-/

namespace DeferredReward.FileTree

variable {tree tree' : FileTree}

/-! ## Nodes -/

theorem node?_put {trail : Trail} (hvacant : tree.node? trail ≠ some .folder) (node : Node)
    (other : Trail) :
    (tree.put trail node).node? other = if other = trail then some node else tree.node? other := by
  have hinner : ¬(trail = [] ∨ trail = ["/"]) := fun hstart => hvacant (if_pos hstart)
  by_cases hsame : other = trail
  · subst hsame
    rw [if_pos rfl, node?, if_neg hinner, put]
    simp
  · rw [if_neg hsame, node?, node?]
    split
    · rfl
    · have hne : (trail == other) = false := beq_eq_false_iff_ne.2 fun h => hsame h.symm
      rw [put, List.find?_cons, hne, List.find?_filter]
      refine congrArg (Option.map Prod.snd) (congrArg (List.find? · tree.nodes) ?_)
      funext entry
      by_cases hentry : entry.1 = other
      · have hkept : entry.1 ≠ trail := hentry ▸ hsame
        simp [hentry, hsame]
      · simp [hentry]

/-- There is a file at the trail. -/
def HasFile (tree : FileTree) (trail : Trail) : Prop :=
  ∃ content, tree.node? trail = some (.file content)

/-- Every folder of the first tree is one of the second. -/
def KeepsFolders (tree tree' : FileTree) : Prop :=
  ∀ trail, tree.node? trail = some .folder → tree'.node? trail = some .folder

theorem KeepsFolders.trans {tree'' : FileTree} (h : KeepsFolders tree tree')
    (h' : KeepsFolders tree' tree'') : KeepsFolders tree tree'' :=
  fun trail hfolder => h' trail (h trail hfolder)

/-- A node put where no folder is leaves the folders. -/
theorem keepsFolders_put {trail : Trail} (hvacant : tree.node? trail ≠ some .folder) (node : Node) :
    KeepsFolders tree (tree.put trail node) := by
  intro other hfolder
  have hne : other ≠ trail := fun heq => hvacant (heq ▸ hfolder)
  rw [node?_put hvacant, if_neg hne, hfolder]

/-- A file put where no folder is is one more file. -/
theorem hasFile_put {trail other : Trail} {content : String}
    (hvacant : tree.node? trail ≠ some .folder) :
    (tree.put trail (.file content)).HasFile other ↔ tree.HasFile other ∨ other = trail := by
  unfold HasFile
  rw [node?_put hvacant]
  by_cases hsame : other = trail
  · simp [hsame]
  · simp [hsame]

/-- The second tree has more folders at most. -/
structure Grows (tree tree' : FileTree) : Prop where
  kept : ∀ trail node, tree.node? trail = some node → tree'.node? trail = some node
  files : ∀ trail content, tree'.node? trail = some (.file content) →
    tree.node? trail = some (.file content)

namespace Grows

theorem refl (tree : FileTree) : Grows tree tree := ⟨fun _ _ h => h, fun _ _ h => h⟩

theorem trans {tree'' : FileTree} (h : Grows tree tree') (h' : Grows tree' tree'') :
    Grows tree tree'' where
  kept trail node hnode := h'.kept trail node (h.kept trail node hnode)
  files trail content hfile := h.files trail content (h'.files trail content hfile)

theorem keepsFolders (h : Grows tree tree') : KeepsFolders tree tree' := fun trail => h.kept trail _

/-- The files are the same. -/
theorem hasFile_iff (h : Grows tree tree') {trail : Trail} :
    tree'.HasFile trail ↔ tree.HasFile trail :=
  ⟨fun ⟨content, hfile⟩ => ⟨content, h.files trail content hfile⟩,
    fun ⟨content, hfile⟩ => ⟨content, h.kept trail _ hfile⟩⟩

end Grows

/-! ## Ways -/

/-- Where names lead from a trail, when every node on the way is a folder. -/
def resolve : Trail → List String → Trail
  | trail, [] => trail
  | trail, name :: rest =>
    if name = "" ∨ name = "." then resolve trail rest
    else if name = ".." then resolve (above trail) rest
    else resolve (trail ++ [name]) rest

/-- A way that can be followed leads where its names say. -/
theorem eq_resolve_of_follow {trail target : Trail} {names : List String}
    (h : tree.follow trail names = .ok target) : target = resolve trail names := by
  induction names generalizing trail with
  | nil =>
    rw [follow] at h
    exact (Except.ok.inj h).symm
  | cons name rest ih =>
    rw [follow] at h
    split at h
    · cases h
    · cases h
    · rw [resolve]
      split at h
      · rename_i hstay
        rw [if_pos hstay]
        exact ih h
      · rename_i hstay
        rw [if_neg hstay]
        split at h
        · rename_i hback
          rw [if_pos hback]
          exact ih h
        · rename_i hback
          rw [if_neg hback]
          split at h
          · cases h
          · exact ih h

/-- A way that can be followed can be followed when folders have been added. -/
theorem follow_of_keepsFolders (hkeeps : KeepsFolders tree tree') {trail target : Trail}
    {names : List String} (h : tree.follow trail names = .ok target) :
    tree'.follow trail names = .ok target := by
  induction names generalizing trail with
  | nil => exact h
  | cons name rest ih =>
    rw [follow] at h ⊢
    split at h
    · cases h
    · cases h
    · rename_i hfolder
      rw [hkeeps trail hfolder]
      dsimp only
      split at h
      · rename_i hstay
        rw [if_pos hstay]
        exact ih h
      · rename_i hstay
        rw [if_neg hstay]
        split at h
        · rename_i hback
          rw [if_pos hback]
          exact ih h
        · rename_i hback
          rw [if_neg hback]
          split at h
          · cases h
          · rename_i hshort
            rw [if_neg hshort]
            exact ih h

/-- Names are followed one after the other. -/
theorem follow_append (tree : FileTree) (trail : Trail) (names later : List String) :
    tree.follow trail (names ++ later) =
      (tree.follow trail names).bind fun target => tree.follow target later := by
  induction names generalizing trail with
  | nil => rfl
  | cons name rest ih =>
    rw [List.cons_append, follow, follow]
    split
    · rfl
    · rfl
    · split
      · exact ih trail
      · split
        · exact ih _
        · split
          · rfl
          · exact ih _

/-- Names that stay lead from a folder to that folder. -/
theorem follow_of_stay {trail : Trail} (hfolder : tree.node? trail = some .folder)
    {names : List String} (hstay : ∀ name ∈ names, name = "" ∨ name = ".") :
    tree.follow trail names = .ok trail := by
  induction names with
  | nil => rfl
  | cons name rest ih =>
    rw [List.forall_mem_cons] at hstay
    rw [follow, hfolder]
    dsimp only
    rw [if_pos hstay.1]
    exact ih hstay.2

/-- A path leads to the same place when folders have been added. -/
theorem locate_of_keepsFolders (hkeeps : KeepsFolders tree tree') {path : Path} {trail : Trail}
    (h : tree.locate path = .ok trail) : tree'.locate path = .ok trail := by
  obtain ⟨⟨start, names⟩, hsplit, hfollow⟩ := exists_of_bind_eq_ok h
  rw [locate, bind_eq_of_ok hsplit]
  exact follow_of_keepsFolders hkeeps hfollow

/-! ## Writing a file -/

/-- A file can be written at the path: it does not ask for a folder, and the way leads to a place
where no folder is. -/
structure Writable (tree : FileTree) (path : Path) : Prop where
  asksForFile : ¬path.text.endsWith "/" = true
  leads : ∃ trail, tree.locate path = .ok trail ∧ tree.node? trail ≠ some .folder

/-- What writing a file does. -/
theorem write_eq_ok_iff {path : Path} {content : String} :
    tree.write path content = .ok tree' ↔ ¬path.text.endsWith "/" = true ∧
      ∃ trail, tree.locate path = .ok trail ∧ tree.node? trail ≠ some .folder ∧
        tree' = tree.put trail (.file content) := by
  unfold write
  split
  · simp [*]
  · split
    · simp [*]
    · split
      · simp [*]
      · rename_i hvacant
        rw [Except.ok.injEq, eq_comm]
        simp_all

/-- Where a file can be written, any content can. -/
theorem exists_write_of_writable {path : Path} (h : Writable tree path) (content : String) :
    ∃ tree', tree.write path content = .ok tree' := by
  obtain ⟨hfile, trail, hlocate, hvacant⟩ := h
  exact ⟨_, write_eq_ok_iff.2 ⟨hfile, trail, hlocate, hvacant, rfl⟩⟩

/-- A file can be written into an empty tree under a name that is its whole path. -/
theorem writable_of_empty {name : String} (hfile : ¬name.endsWith "/" = true)
    (hname : (FileTree.empty.locate ⟨name⟩).toOption = some [name]) :
    Writable FileTree.empty ⟨name⟩ := by
  have hslash : [name] ≠ ["/"] := by
    intro hname
    rw [List.singleton_inj.1 hname] at hfile
    exact hfile (by decide +kernel)
  have hvacant : FileTree.empty.node? [name] = none := by
    rw [node?, if_neg (not_or_intro (List.cons_ne_nil name []) hslash)]
    rfl
  refine ⟨hfile, [name], ?_, fun hfolder => nomatch hvacant.symm.trans hfolder⟩
  cases h : FileTree.empty.locate ⟨name⟩ with
  | error cause =>
    rw [h] at hname
    cases hname
  | ok trail =>
    rw [h] at hname
    exact congrArg Except.ok (Option.some.inj hname)

/-- Writing a file keeps other places writable. -/
theorem Writable.of_write {path other : Path} {content : String} (h : Writable tree other)
    (hwrite : tree.write path content = .ok tree') : Writable tree' other := by
  obtain ⟨_, trail, _, hvacant, rfl⟩ := write_eq_ok_iff.1 hwrite
  obtain ⟨hfile, target, hlocate, htarget⟩ := h
  refine ⟨hfile, target, locate_of_keepsFolders (keepsFolders_put hvacant _) hlocate, ?_⟩
  rw [node?_put hvacant]
  split
  · exact fun hfolder => nomatch hfolder
  · exact htarget

/-- A file that has been written is read. -/
theorem read_of_write {path : Path} {content : String} (h : tree.write path content = .ok tree') :
    tree'.read path = .ok content := by
  obtain ⟨_, trail, hlocate, hvacant, rfl⟩ := write_eq_ok_iff.1 h
  have hagain := locate_of_keepsFolders (keepsFolders_put hvacant (.file content)) hlocate
  have hnode : (tree.put trail (.file content)).node? trail = some (.file content) := by
    rw [node?_put hvacant, if_pos rfl]
  rw [read, hagain]
  dsimp only
  rw [hnode]

/-- A file is read as before when folders have been added. -/
theorem read_of_grows (hgrows : Grows tree tree') {path : Path} {content : String}
    (h : tree.read path = .ok content) : tree'.read path = .ok content := by
  unfold read at h ⊢
  cases hlocate : tree.locate path with
  | error cause =>
    rw [hlocate] at h
    cases h
  | ok trail =>
    rw [hlocate] at h
    rw [locate_of_keepsFolders hgrows.keepsFolders hlocate]
    dsimp only at h ⊢
    cases hnode : tree.node? trail with
    | none =>
      rw [hnode] at h
      cases h
    | some node =>
      rw [hgrows.kept trail node hnode]
      rw [hnode] at h
      exact h

/-! ## Programs over a tree -/

/-- A program that reads a file leaves the tree alone. -/
theorem run_read (path : Path) :
    (FileSystem.read path : StateM FileTree _).run tree = (tree.read path, tree) := rfl

/-- A file that has been written can be written again, and only its last content counts. -/
theorem write_of_write {path : Path} {content : String} (h : tree.write path content = .ok tree')
    (later : String) :
    ∃ written, tree.write path later = .ok written ∧ tree'.write path later = .ok written := by
  obtain ⟨hfile, trail, hlocate, hvacant, rfl⟩ := write_eq_ok_iff.1 h
  have hagain := locate_of_keepsFolders (keepsFolders_put hvacant (.file content)) hlocate
  have hstill : (tree.put trail (.file content)).node? trail ≠ some .folder := by
    rw [node?_put hvacant, if_pos rfl]
    exact fun hfolder => nomatch hfolder
  have hput : (tree.put trail (.file content)).put trail (.file later) =
      tree.put trail (.file later) := by
    simp [put, List.filter_filter]
  exact ⟨_, write_eq_ok_iff.2 ⟨hfile, trail, hlocate, hvacant, rfl⟩,
    write_eq_ok_iff.2 ⟨hfile, trail, hagain, hstill, hput.symm⟩⟩

/-- What stands in the way of a file is in the way of any content. -/
theorem write_eq_error {path : Path} {content : String} {cause : IoFault}
    (h : tree.write path content = .error cause) (other : String) :
    tree.write path other = .error cause := by
  unfold write at h ⊢
  split
  · rename_i hslash
    rwa [if_pos hslash] at h
  · rename_i hslash
    rw [if_neg hslash] at h
    cases hlocate : tree.locate path with
    | error missing =>
      rw [hlocate] at h
      exact h
    | ok trail =>
      rw [hlocate] at h
      dsimp only at h ⊢
      split at h
      · exact h
      · cases h

theorem run_putFile (path : Path) (content : String) : (putFile path content).run tree =
    match tree.write path content with
    | .ok tree' => (.ok (), tree')
    | .error cause => (.error cause, tree) := by
  have hrun : (putFile path content).run tree =
      StateT.run (match tree.write path content with
        | .ok tree => do set tree; return .ok ()
        | .error cause => return .error cause : StateM FileTree (Except IoFault Unit)) tree := rfl
  rw [hrun]
  cases tree.write path content <;> rfl

/-- A program that writes a file goes on with the tree in which it has been written, or with the
tree as it is when the file cannot be made. Once it has been made nothing fails. -/
theorem run_write (path : Path) (content : String) :
    (FileSystem.write path content : StateM FileTree _).run tree =
      match tree.write path content with
      | .ok tree' => (.ok (), tree')
      | .error cause => (.error (.unmade cause), tree) := by
  have hcreate : (FileSystem.create path : StateM FileTree _).run tree = _ := run_putFile path ""
  unfold FileSystem.write
  rw [StateT.run_bind, hcreate]
  cases hempty : tree.write path "" with
  | error cause =>
    rw [write_eq_error hempty content]
    rfl
  | ok made =>
    obtain ⟨written, hwritten, hagain⟩ := write_of_write hempty content
    have hpass : (FileSystem.pass path content : StateM FileTree _).run made = _ :=
      run_putFile path content
    dsimp only
    change StateT.run (FileSystem.pass path content >>= _) made = _
    rw [StateT.run_bind, hpass, hagain, hwritten]
    rfl

/-! ## Making folders -/

theorem isFolder_iff {start : Trail} {names : List String} :
    tree.isFolder start names = true ↔
      ∃ trail, tree.follow start names = .ok trail ∧ tree.node? trail = some .folder := by
  unfold isFolder
  cases tree.follow start names with
  | error cause => simp
  | ok trail => simp

theorem isFolder_of_keepsFolders (hkeeps : KeepsFolders tree tree') {start : Trail}
    {names : List String} (h : tree.isFolder start names = true) :
    tree'.isFolder start names = true := by
  obtain ⟨trail, hfollow, hfolder⟩ := isFolder_iff.1 h
  exact isFolder_iff.2 ⟨trail, follow_of_keepsFolders hkeeps hfollow, hkeeps trail hfolder⟩

theorem makeFolder_of_follow {start trail : Trail} {names : List String}
    (h : tree.follow start names = .ok trail) :
    tree.makeFolder start names = match tree.node? trail with
      | some _ => .error .alreadyExists
      | none => .ok (tree.put trail .folder) := by
  unfold makeFolder
  rw [h]
  rfl

/-- A folder that has been made is there, and is all that is new. -/
theorem grows_of_makeFolder {start : Trail} {names : List String}
    (h : tree.makeFolder start names = .ok tree') :
    Grows tree tree' ∧ tree'.isFolder start names = true := by
  cases hfollow : tree.follow start names with
  | error cause =>
    rw [makeFolder, hfollow] at h
    cases h
  | ok trail =>
    rw [makeFolder_of_follow hfollow] at h
    cases hnode : tree.node? trail with
    | some node =>
      rw [hnode] at h
      cases h
    | none =>
      rw [hnode] at h
      cases h
      have hvacant : tree.node? trail ≠ some .folder := by
        rw [hnode]
        exact fun hsome => nomatch hsome
      refine ⟨⟨?_, ?_⟩, isFolder_iff.2 ⟨trail, ?_, ?_⟩⟩
      · intro other node hother
        have hne : other ≠ trail := by
          rintro rfl
          rw [hnode] at hother
          cases hother
        rw [node?_put hvacant, if_neg hne, hother]
      · intro other content hother
        rw [node?_put hvacant] at hother
        split at hother
        · cases hother
        · exact hother
      · exact follow_of_keepsFolders (keepsFolders_put hvacant _) hfollow
      · rw [node?_put hvacant, if_pos rfl]

/-- Folders are made by adding folders; when that succeeds the names lead to a folder. -/
theorem grows_makeFoldersAt (tree : FileTree) (start : Trail) (names parts : List String) :
    Grows tree (tree.makeFoldersAt start names parts).2 ∧
      ((tree.makeFoldersAt start names parts).1 = .ok () → parts ≠ [] →
        (tree.makeFoldersAt start names parts).2.isFolder start names = true) := by
  have hsettle : ∀ (tree : FileTree) (names : List String) (cause : IoFault),
      (if tree.isFolder start names then .ok () else .error cause : Except IoFault Unit) = .ok () →
        tree.isFolder start names = true := by
    intro tree names cause h
    by_contra hnot
    rw [if_neg hnot] at h
    cases h
  -- The folders above are those of the names without the last that says something.
  induction parts generalizing names with
  | nil => exact ⟨.refl tree, fun _ h => absurd rfl h⟩
  | cons last outer ih =>
    obtain ⟨houter, _⟩ := ih outer.reverse
    rw [makeFoldersAt]
    cases hmake : tree.makeFolder start names with
    | ok made => exact ⟨(grows_of_makeFolder hmake).1, fun _ _ => (grows_of_makeFolder hmake).2⟩
    | error cause =>
      by_cases hmissing : cause = .notFound
      · subst hmissing
        dsimp only
        cases hmade : tree.makeFoldersAt start outer.reverse outer with
        | mk result made =>
          rw [hmade] at houter
          cases result with
          | error cause => exact ⟨houter, fun h => nomatch h⟩
          | ok =>
            dsimp only
            cases hlast : made.makeFolder start names with
            | ok whole =>
              obtain ⟨hgrows, hfolder⟩ := grows_of_makeFolder hlast
              exact ⟨houter.trans hgrows, fun _ _ => hfolder⟩
            | error cause => exact ⟨houter, fun h _ => hsettle made names cause h⟩
      · cases cause <;> first
          | exact absurd rfl hmissing
          | exact ⟨.refl tree, fun h _ => hsettle tree names _ h⟩

/-- Making the folders of a path adds folders and nothing else. -/
theorem grows_makeFolders (tree : FileTree) (path : Path) :
    Grows tree (tree.makeFolders path).2 := by
  unfold makeFolders
  split
  · exact .refl tree
  · split
    · exact .refl tree
    · exact (grows_makeFoldersAt ..).1

/-- Folders that are there need not be made. -/
theorem makeFoldersAt_of_isFolder {start : Trail} {names : List String}
    (h : tree.isFolder start names = true) (parts : List String) :
    tree.makeFoldersAt start names parts = (.ok (), tree) := by
  cases parts with
  | nil => rfl
  | cons last outer =>
    obtain ⟨trail, hfollow, hfolder⟩ := isFolder_iff.1 h
    have hexists : tree.makeFolder start names = .error .alreadyExists := by
      rw [makeFolder_of_follow hfollow, hfolder]
    rw [makeFoldersAt, hexists]
    dsimp only
    rw [h]
    rfl

/-- Folders that have been made are there as long as no folder is taken away. -/
theorem makeFolders_again {path : Path} (hmade : (tree.makeFolders path).1 = .ok ())
    (hkeeps : KeepsFolders (tree.makeFolders path).2 tree') :
    tree'.makeFolders path = (.ok (), tree') := by
  unfold makeFolders at hmade hkeeps ⊢
  split
  · rfl
  · rename_i hne
    rw [if_neg hne] at hmade hkeeps
    cases hsplit : split path with
    | error cause =>
      rw [hsplit] at hmade
      cases hmade
    | ok way =>
      obtain ⟨start, names⟩ := way
      rw [hsplit] at hmade hkeeps
      dsimp only at hmade hkeeps ⊢
      generalize names.reverse.filter (fun name => name ≠ "" ∧ name ≠ ".") = parts at *
      by_cases hparts : parts = []
      · subst hparts
        rfl
      · have hfolder := (grows_makeFoldersAt ..).2 hmade hparts
        exact makeFoldersAt_of_isFolder (isFolder_of_keepsFolders hkeeps hfolder) _

end DeferredReward.FileTree
