import DeferredReward.Proofs.Storage.Tree

/-!
# Files in a folder

The path of a folder joined with the name of a file leads to the file of that
name in the folder: whatever slashes and dots the folder's path has, it is
entered first and the name is followed from there. Hence files of different
names in one folder are different files.

Main statements: `locate_join_iff`, `read_join_iff`, `write_join_iff`,
`read_join_of_write_join`, `enters_of_makeFolders`.
-/

namespace DeferredReward.FileTree

variable {tree tree' : FileTree}

/-- The text can be the name of a file in a folder. -/
structure IsFileName (name : String) : Prop where
  notEmpty : name ≠ ""
  notHere : name ≠ "."
  notAbove : name ≠ ".."
  short : name.utf8ByteSize ≤ 255
  noSlash : '/' ∉ name.toList
  noZero : Char.ofNat 0 ∉ name.toList

/-- Where a path starts. -/
def startOf (folder : Path) : Trail := if folder.text.startsWith "/" then ["/"] else []

/-- The names that a path gives on the way into the folder. -/
def stepsInto (folder : Path) : List String :=
  let names := (folder.text.toList.splitOn '/').map String.ofList
  if folder.text.isEmpty || folder.text.endsWith "/" then names.dropLast else names

/-- The trail of the folder at a path, as far as its names tell. -/
def trailOf (folder : Path) : Trail := resolve (startOf folder) (stepsInto folder)

/-- The trail leads to something inside the folder at a path. Only the folder that absolute paths
start from has a name with a slash. -/
def Inside (folder : Path) (trail : Trail) : Prop :=
  ∃ name rest, name ≠ "/" ∧ trail = trailOf folder ++ name :: rest

/-- The path leads into a folder of the tree. -/
def Enters (tree : FileTree) (folder : Path) : Prop :=
  tree.follow (startOf folder) (stepsInto folder) = .ok (trailOf folder) ∧
    tree.node? (trailOf folder) = some .folder

theorem node?_startOf (tree : FileTree) (folder : Path) :
    tree.node? (startOf folder) = some .folder := by
  refine if_pos ?_
  unfold startOf
  split <;> simp

theorem Enters.of_follow {folder : Path} {trail : Trail}
    (hfollow : tree.follow (startOf folder) (stepsInto folder) = .ok trail)
    (hfolder : tree.node? trail = some .folder) : Enters tree folder := by
  obtain rfl := eq_resolve_of_follow hfollow
  exact ⟨hfollow, hfolder⟩

theorem Enters.of_keepsFolders {folder : Path} (hkeeps : KeepsFolders tree tree')
    (h : Enters tree folder) : Enters tree' folder :=
  ⟨follow_of_keepsFolders hkeeps h.1, hkeeps _ h.2⟩

/-- A path that is not too long and holds no character with number zero. -/
def Presentable (path : Path) : Prop :=
  Char.ofNat 0 ∉ path.text.toList ∧ path.text.utf8ByteSize < 4096

theorem endsWith_slash_iff {text : String} :
    text.endsWith "/" = true ↔ ∃ before, text.toList = before ++ ['/'] := by
  have hslice : text.endsWith "/" = text.toSlice.endsWith "/" := rfl
  rw [hslice, String.Slice.endsWith_string_iff, String.copy_toSlice]
  exact ⟨fun ⟨before, h⟩ => ⟨before, h.symm⟩, fun ⟨before, h⟩ => ⟨before, h.symm⟩⟩

/-- The characters of a joined path are split where those of the folder are, with the name last. -/
theorem splitOn_join {folder : Path} {name : String} (hname : '/' ∉ name.toList) :
    ((folder.join name).text.toList.splitOn '/').map String.ofList =
      stepsInto folder ++ [name] := by
  have hlast : (name.toList.splitOn '/').map String.ofList = [name] := by
    rw [List.splitOn_eq_singleton hname, List.map_singleton, String.ofList_toList]
  unfold Path.join stepsInto
  by_cases hempty : folder.text = ""
  · have hnames : ((folder.text.toList.splitOn '/').map String.ofList).dropLast = [] := by
      rw [hempty]
      rfl
    rw [if_pos (by simp [hempty]), if_pos (by simp [hempty]), hnames, hempty]
    simpa using hlast
  · by_cases hslash : folder.text.endsWith "/" = true
    · obtain ⟨before, hbefore⟩ := endsWith_slash_iff.1 hslash
      rw [if_pos (by simp [hslash]), if_pos (by simp [hslash])]
      have hjoined : (folder.text ++ name).toList = before ++ '/' :: name.toList := by
        rw [String.toList_append, hbefore, List.append_assoc, List.singleton_append]
      rw [hjoined, hbefore, List.splitOn_append_cons_self, List.splitOn_append_cons_self,
        List.map_append, List.map_append, hlast, List.splitOn_nil, List.map_singleton,
        List.dropLast_concat]
    · have hplain : ¬(folder.text.isEmpty || folder.text.endsWith "/") = true := by
        simp [hempty, hslash]
      rw [if_neg hplain, if_neg hplain]
      have hjoined : (folder.text ++ "/" ++ name).toList =
          folder.text.toList ++ '/' :: name.toList := by
        rw [String.toList_append, String.toList_append, List.append_assoc]
        rfl
      rw [hjoined, List.splitOn_append_cons_self, List.map_append, hlast]

/-- A joined path starts where the folder does. -/
theorem startOf_join {folder : Path} {name : String} (hname : '/' ∉ name.toList) :
    startOf (folder.join name) = startOf folder := by
  have hslash : ∀ text : String,
      text.startsWith "/" = true ↔ ∃ rest, text.toList = '/' :: rest := by
    intro text
    rw [String.startsWith_string_iff]
    exact ⟨fun ⟨rest, h⟩ => ⟨rest, h.symm⟩, fun ⟨rest, h⟩ => ⟨rest, h.symm⟩⟩
  have hstart : (folder.join name).text.startsWith "/" = folder.text.startsWith "/" := by
    rw [Bool.eq_iff_iff, hslash, hslash]
    unfold Path.join
    by_cases hempty : folder.text = ""
    · rw [if_pos (by simp [hempty]), hempty]
      constructor
      · rintro ⟨rest, hrest⟩
        rw [String.toList_append] at hrest
        have hmem : '/' ∈ "".toList ++ name.toList := hrest ▸ List.mem_cons_self
        exact absurd hmem hname
      · rintro ⟨rest, hrest⟩
        cases hrest
    · obtain ⟨first, rest, hfirst⟩ := List.exists_cons_of_ne_nil
        fun hnil => hempty (String.toList_eq_nil_iff.1 hnil)
      split <;> simp [String.toList_append, hfirst]
  rw [startOf, startOf, hstart]

/-- The path of a folder leaves room for the name of a file. -/
theorem presentable_join {folder : Path} {name : String} (hname : IsFileName name)
    (hzero : Char.ofNat 0 ∉ folder.text.toList) (hshort : folder.text.utf8ByteSize < 3840) :
    Presentable (folder.join name) := by
  have hsize := hname.short
  unfold Path.join
  split
  · refine ⟨?_, ?_⟩
    · simp [String.toList_append, hzero, hname.noZero]
    · rw [String.utf8ByteSize_append]
      omega
  · have hslash : "/".utf8ByteSize = 1 := rfl
    refine ⟨?_, ?_⟩
    · simp [String.toList_append, hzero, hname.noZero]
    · rw [String.utf8ByteSize_append, String.utf8ByteSize_append]
      omega

/-- What is split at its slashes is a path that has characters, none too many. -/
theorem split_eq_ok_iff {path : Path} {way : Trail × List String} :
    split path = .ok way ↔ Presentable path ∧ path.text ≠ "" ∧
      way = (startOf path, (path.text.toList.splitOn '/').map String.ofList) := by
  unfold split
  by_cases hzero : Char.ofNat 0 ∈ path.text.toList
  · simp [hzero, Presentable]
  · by_cases hempty : path.text = ""
    · simp [hempty]
    · by_cases hlong : 4096 ≤ path.text.utf8ByteSize
      · simp [hlong, hzero, hempty, Presentable, Nat.not_lt.2 hlong]
      · rw [if_neg (by simpa using hzero), if_neg (by simpa using hempty), if_neg hlong]
        refine ⟨fun h => ⟨⟨hzero, Nat.not_le.1 hlong⟩, hempty, (Except.ok.inj h).symm⟩, ?_⟩
        rintro ⟨_, _, rfl⟩
        rfl

/-- A joined path gives the names into the folder and then the name in it. -/
theorem split_join {folder : Path} {name : String} (hname : IsFileName name)
    (h : Presentable (folder.join name)) :
    split (folder.join name) = .ok (startOf folder, stepsInto folder ++ [name]) := by
  have hne : (folder.join name).text ≠ "" := by
    unfold Path.join
    split <;> simp [hname.notEmpty]
  rw [← startOf_join hname.noSlash, ← splitOn_join hname.noSlash]
  exact split_eq_ok_iff.2 ⟨h, hne, rfl⟩

/-- A file in a folder is found by entering the folder. -/
theorem locate_join_iff {folder : Path} {name : String} (hname : IsFileName name) {trail : Trail} :
    tree.locate (folder.join name) = .ok trail ↔
      Presentable (folder.join name) ∧ Enters tree folder ∧ trail = trailOf folder ++ [name] := by
  have hlast : ∀ outer, tree.follow outer [name] = .ok trail ↔
      tree.node? outer = some .folder ∧ trail = outer ++ [name] := by
    intro outer
    have hmoves : ¬(name = "" ∨ name = ".") := fun h => h.elim hname.notEmpty hname.notHere
    rw [follow]
    split
    · simp [*]
    · simp [*]
    · rename_i hfolder
      rw [if_neg hmoves, if_neg hname.notAbove, if_neg (Nat.not_lt.2 hname.short), follow]
      simp [hfolder, eq_comm]
  have hway : Presentable (folder.join name) →
      tree.locate (folder.join name) = (tree.follow (startOf folder) (stepsInto folder)).bind
        fun outer => tree.follow outer [name] := by
    intro hpresentable
    rw [locate, split_join hname hpresentable]
    exact follow_append ..
  constructor
  · intro h
    obtain ⟨way, hsplit, _⟩ := exists_of_bind_eq_ok h
    obtain ⟨hpresentable, _, _⟩ := split_eq_ok_iff.1 hsplit
    rw [hway hpresentable] at h
    obtain ⟨outer, houter, h⟩ := exists_of_bind_eq_ok h
    obtain ⟨hfolder, htrail⟩ := (hlast outer).1 h
    obtain rfl := eq_resolve_of_follow houter
    exact ⟨hpresentable, .of_follow houter hfolder, htrail⟩
  · rintro ⟨hpresentable, ⟨houter, hfolder⟩, htrail⟩
    rw [hway hpresentable, houter]
    exact (hlast _).2 ⟨hfolder, htrail⟩

/-- What is read from a file in a folder. -/
theorem read_join_iff {folder : Path} {name : String} (hname : IsFileName name) {content : String} :
    tree.read (folder.join name) = .ok content ↔
      Presentable (folder.join name) ∧ Enters tree folder ∧
        tree.node? (trailOf folder ++ [name]) = some (.file content) := by
  unfold read
  cases hlocate : tree.locate (folder.join name) with
  | error cause =>
    refine ⟨fun h => (nomatch h), fun ⟨hpresentable, henters, _⟩ => ?_⟩
    rw [(locate_join_iff hname).2 ⟨hpresentable, henters, rfl⟩] at hlocate
    cases hlocate
  | ok trail =>
    obtain ⟨hpresentable, henters, rfl⟩ := (locate_join_iff hname).1 hlocate
    dsimp only
    split
    · simp [*]
    · simp [*]
    · simp [*]

/-- The path of a file in a folder does not ask for a folder. -/
theorem not_endsWith_join {folder : Path} {name : String} (hname : IsFileName name) :
    ¬(folder.join name).text.endsWith "/" = true := by
  intro hends
  obtain ⟨before, hbefore⟩ := endsWith_slash_iff.1 hends
  have hjoined : ∃ earlier, (folder.join name).text.toList = earlier ++ name.toList := by
    unfold Path.join
    split
    · exact ⟨_, String.toList_append⟩
    · exact ⟨_, String.toList_append⟩
  obtain ⟨earlier, hearlier⟩ := hjoined
  have hlast := congrArg List.getLast? (hbefore.symm.trans hearlier)
  rw [List.getLast?_concat, List.getLast?_append_of_ne_nil _
    fun hnil => hname.notEmpty (String.toList_eq_nil_iff.1 hnil)] at hlast
  exact hname.noSlash (List.mem_of_getLast? hlast.symm)

/-- When a file can be written in a folder, and what that changes. -/
theorem write_join_iff {folder : Path} {name : String} (hname : IsFileName name)
    {content : String} :
    tree.write (folder.join name) content = .ok tree' ↔
      Presentable (folder.join name) ∧ Enters tree folder ∧
        tree.node? (trailOf folder ++ [name]) ≠ some .folder ∧
        tree' = tree.put (trailOf folder ++ [name]) (.file content) := by
  unfold write
  rw [if_neg (not_endsWith_join hname)]
  cases hlocate : tree.locate (folder.join name) with
  | error cause =>
    refine ⟨fun h => (nomatch h), fun ⟨hpresentable, henters, _⟩ => ?_⟩
    rw [(locate_join_iff hname).2 ⟨hpresentable, henters, rfl⟩] at hlocate
    cases hlocate
  | ok trail =>
    obtain ⟨hpresentable, henters, rfl⟩ := (locate_join_iff hname).1 hlocate
    dsimp only
    split
    · simp [*]
    · rename_i hvacant
      rw [Except.ok.injEq, eq_comm (b := tree')]
      exact ⟨fun h => ⟨hpresentable, henters, hvacant, h⟩, fun h => h.2.2.2⟩

/-- Writing one file of a folder leaves the others. -/
theorem read_join_of_write_join {folder : Path} {name other : String} (hname : IsFileName name)
    (hother : IsFileName other) (hne : other ≠ name) {content text : String}
    (hwrite : tree.write (folder.join name) content = .ok tree')
    (hread : tree.read (folder.join other) = .ok text) :
    tree'.read (folder.join other) = .ok text := by
  obtain ⟨_, _, hvacant, rfl⟩ := (write_join_iff hname).1 hwrite
  obtain ⟨hpresentable, henters, hfile⟩ := (read_join_iff hother).1 hread
  have hapart : trailOf folder ++ [other] ≠ trailOf folder ++ [name] := fun h =>
    hne (List.singleton_inj.1 (List.append_cancel_left h))
  refine (read_join_iff hother).2
    ⟨hpresentable, henters.of_keepsFolders (keepsFolders_put hvacant _), ?_⟩
  rw [node?_put hvacant, if_neg hapart, hfile]

/-- The names on the way into a folder, apart from empty ones at the end, are those whose folders
are made. -/
theorem exists_blanks_stepsInto {folder : Path} (hne : folder.text ≠ "") :
    ∃ blanks, (∀ name ∈ blanks, name = "") ∧ stepsInto folder =
      (((folder.text.toList.splitOn '/').map String.ofList).reverse.dropWhile (· = "")).reverse ++
        blanks := by
  generalize hnames : (folder.text.toList.splitOn '/').map String.ofList = names
  have hwhole : names = (names.reverse.dropWhile (· = "")).reverse ++
      (names.reverse.takeWhile (· = "")).reverse := by
    rw [← List.reverse_append, List.takeWhile_append_dropWhile, List.reverse_reverse]
  have hblank : ∀ name ∈ (names.reverse.takeWhile (· = "")).reverse, name = "" := by
    intro name hname
    simpa using List.all_eq_true.1 List.all_takeWhile name (List.mem_reverse.1 hname)
  unfold stepsInto
  rw [hnames]
  by_cases hslash : folder.text.endsWith "/" = true
  · -- The name after the slash at the end is empty and is left out.
    have hlast : ∃ earlier, names = earlier ++ [""] := by
      obtain ⟨before, hbefore⟩ := endsWith_slash_iff.1 hslash
      rw [← hnames, hbefore, List.splitOn_append_cons_self, List.map_append]
      exact ⟨_, rfl⟩
    have hsome : (names.reverse.takeWhile (· = "")).reverse ≠ [] := by
      obtain ⟨earlier, hearlier⟩ := hlast
      rw [hearlier, List.reverse_concat]
      simp
    refine ⟨(names.reverse.takeWhile (· = "")).reverse.dropLast, ?_, ?_⟩
    · exact fun name hname => hblank name ((List.dropLast_sublist _).subset hname)
    · rw [← List.dropLast_append_of_ne_nil hsome, ← hwhole]
      simp [hslash]
  · refine ⟨_, hblank, ?_⟩
    rw [← hwhole]
    simp [hne, hslash]

/-- A path leads into its folder once the folder has been made. -/
theorem enters_of_makeFolders {folder : Path} (h : (tree.makeFolders folder).1 = .ok ()) :
    Enters (tree.makeFolders folder).2 folder := by
  by_cases hempty : folder.text = ""
  · have hsteps : stepsInto folder = [] := by
      rw [stepsInto, hempty]
      rfl
    refine .of_follow ?_ (node?_startOf _ folder)
    rw [hsteps, follow]
  · obtain ⟨blanks, hblanks, hsteps⟩ := exists_blanks_stepsInto hempty
    unfold makeFolders at h ⊢
    rw [if_neg (by simpa using hempty)] at h ⊢
    cases hsplit : split folder with
    | error cause =>
      rw [hsplit] at h
      cases h
    | ok way =>
      obtain ⟨_, _, rfl⟩ := split_eq_ok_iff.1 hsplit
      rw [hsplit] at h
      dsimp only at h ⊢
      generalize (folder.text.toList.splitOn '/').map String.ofList = names at h hsteps ⊢
      generalize hparts : names.reverse.filter (fun name => name ≠ "" ∧ name ≠ ".") = parts at h ⊢
      by_cases hnone : parts = []
      · -- No name on the way leads anywhere else.
        subst hnone
        refine .of_follow (follow_of_stay (node?_startOf _ folder) ?_) (node?_startOf _ folder)
        intro name hname
        rw [hsteps, List.mem_append, List.mem_reverse] at hname
        rcases hname with hname | hname
        · have hmem := (List.dropWhile_sublist _).subset hname
          have hstay := List.filter_eq_nil_iff.1 hparts name hmem
          by_contra hmoves
          exact hstay (by simpa [not_or] using hmoves)
        · exact .inl (hblanks name hname)
      · obtain ⟨trail, hfollow, hfolder⟩ := isFolder_iff.1 ((grows_makeFoldersAt ..).2 h hnone)
        refine .of_follow ?_ hfolder
        rw [hsteps, follow_append, hfollow]
        exact follow_of_stay hfolder fun name hname => .inl (hblanks name hname)

end DeferredReward.FileTree
