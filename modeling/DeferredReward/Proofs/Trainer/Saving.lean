import DeferredReward.Arithmetic.Double
import DeferredReward.Proofs.Json.Numbers
import DeferredReward.Proofs.Snapshot.RoundTrip
import DeferredReward.Proofs.Storage.Folder
import DeferredReward.Proofs.Trainer.Runs

/-!
# What operations do to the files

A checkpoint is written in the output folder under the name of its epoch, and
different epochs have different names. Saving is the only thing that an operation
does to the files, and all that it leaves is the file, or folders when it fails.
While the output folder can be written no saving fails.

Main statements: `save_eq`, `perform_cases`, `save_of_accepts`.
-/

namespace DeferredReward

open FileTree (Grows IsFileName Writable)

/-! ## Names -/

/-- The name of the file for the checkpoint of an epoch. -/
def checkpointName (epoch : UInt64) : String := s!"epoch_{epoch}.json"

theorem toList_checkpointName (epoch : UInt64) : (checkpointName epoch).toList =
    "epoch_".toList ++ (epoch.toNat.repr.toList ++ ".json".toList) := by
  have hname : checkpointName epoch = "epoch_" ++ epoch.toNat.repr ++ ".json" := rfl
  rw [hname, String.toList_append, String.toList_append, List.append_assoc]

/-- A character takes four bytes at most. -/
theorem utf8ByteSize_le (text : String) : text.utf8ByteSize ≤ 4 * text.toList.length := by
  have hchars : ∀ cs : List Char, (String.ofList cs).utf8ByteSize ≤ 4 * cs.length := by
    intro cs
    induction cs with
    | nil => exact Nat.le_refl 0
    | cons c cs ih =>
      have hc := c.utf8Size_le_four
      rw [String.ofList_cons, String.utf8ByteSize_append, String.utf8ByteSize_singleton,
        List.length_cons]
      omega
  have h := hchars text.toList
  rw [String.ofList_toList] at h
  exact h

/-- The files of checkpoints have names that files can have. -/
theorem isFileName_checkpointName (epoch : UInt64) : IsFileName (checkpointName epoch) := by
  have hchars := toList_checkpointName epoch
  have hdigits : ∀ c ∈ epoch.toNat.repr.toList, c.isDigit = true := Json.isDigit_of_mem_repr
  have hplain : ∀ c : Char, c.isDigit = false → c ∉ "epoch_".toList → c ∉ ".json".toList →
      c ∉ (checkpointName epoch).toList := by
    intro c hdigit hbefore hbehind
    rw [hchars, List.mem_append, List.mem_append]
    rintro (h | h | h)
    · exact hbefore h
    · exact Bool.eq_false_iff.1 hdigit (hdigits c h)
    · exact hbehind h
  have hlong : 11 ≤ (checkpointName epoch).toList.length := by
    rw [hchars, List.length_append, List.length_append]
    have hfixed : "epoch_".toList.length = 6 ∧ ".json".toList.length = 5 := ⟨rfl, rfl⟩
    omega
  refine ⟨?_, ?_, ?_, ?_, hplain _ (by decide) (by decide) (by decide),
    hplain _ (by decide) (by decide) (by decide)⟩
  · intro h
    rw [h] at hlong
    exact absurd hlong (by decide)
  · intro h
    rw [h] at hlong
    exact absurd hlong (by decide)
  · intro h
    rw [h] at hlong
    exact absurd hlong (by decide)
  · have hcount : epoch.toNat.repr.toList.length ≤ 20 := by
      rw [Nat.toList_repr, Nat.length_toDigits_le_iff (by decide) (by decide)]
      exact epoch.toNat_lt.trans (by decide)
    have hsize := utf8ByteSize_le (checkpointName epoch)
    rw [hchars, List.length_append, List.length_append] at hsize
    have hfixed : "epoch_".toList.length = 6 ∧ ".json".toList.length = 5 := ⟨rfl, rfl⟩
    omega

/-- Checkpoints of different epochs have different names. -/
theorem checkpointName_inj {epoch epoch' : UInt64}
    (h : checkpointName epoch = checkpointName epoch') : epoch = epoch' := by
  have hchars := congrArg String.toList h
  rw [toList_checkpointName, toList_checkpointName] at hchars
  have hdigits := List.append_cancel_right (List.append_cancel_left hchars)
  have hvalue := congrArg Json.digitsValue hdigits
  rw [Json.digitsValue_repr, Json.digitsValue_repr] at hvalue
  exact UInt64.toNat_inj.1 hvalue

/-! ## What operations do to the files -/

/-- The path of a snapshot that the answer tells to be saved. -/
def Answer.written? {α : Type} : Answer α → Option Path
  | optimized (.ok (.executed _ _ (some (.saved path)))) => some path
  | saved (.ok path) => some path
  | _ => none

/-- What a step tells of its checkpoint. -/
def Checkpoint.ofSaved : Except SnapshotError Path → Checkpoint
  | .ok path => .saved path
  | .error cause => .failed cause

namespace Trainer

/-- The path of the checkpoint of an epoch. -/
def checkpointPath {α : Type} (config : Config α) (epoch : UInt64) : Path :=
  config.outputPath.join (checkpointName epoch)

variable {t t' : Trainer (Network Float) Float} {tree tree' : FileTree}

/-- From the first tree to the second the parameters of the trainer's policy have been written, as
the checkpoint of its epoch, and folders at most have been added before. -/
def Files (t : Trainer (Network Float) Float) (tree tree' : FileTree) : Prop :=
  ∃ grown, Grows tree grown ∧ grown.write (checkpointPath t.config t.epoch)
    (Snapshot.write t.policy.parameters) = .ok tree'

/-- Saving makes the output folder and writes the file in it. -/
theorem save_eq (t : Trainer (Network Float) Float) (tree : FileTree) :
    (t.save : StateM FileTree _).run tree =
      match tree.makeFolders t.config.outputPath with
      | (.error cause, made) => (.error (.file t.config.outputPath cause), made)
      | (.ok (), made) =>
        match made.write (checkpointPath t.config t.epoch) (Snapshot.write t.policy.parameters) with
        | .ok tree' => (.ok (checkpointPath t.config t.epoch), tree')
        | .error cause => (.error (.file (checkpointPath t.config t.epoch) cause), made) := by
  have hmake : (SnapshotStore.makeFolders Float t.config.outputPath :
      StateM FileTree (Except IoFault Unit)).run tree = tree.makeFolders t.config.outputPath := rfl
  unfold save
  dsimp only
  rw [run_bind, hmake]
  rcases tree.makeFolders t.config.outputPath with ⟨cause | made, after⟩
  · rfl
  · have hsave : (SnapshotStore.save (t.config.outputPath.join s!"epoch_{t.epoch}.json")
        (Trainable.parameters t.policy) : StateM FileTree (Except SnapshotError Unit)).run after =
          _ := Snapshot.save_eq after (checkpointPath t.config t.epoch) t.policy.parameters
    dsimp only
    rw [run_bind, hsave]
    cases after.write (checkpointPath t.config t.epoch) (Snapshot.write t.policy.parameters) <;> rfl

/-- Saving adds folders at most and fails, or the checkpoint is written. -/
theorem save_cases {answer : Except SnapshotError Path}
    (h : (t.save : StateM FileTree _).run tree = (answer, tree')) :
    ((∃ cause, answer = .error cause) ∧ Grows tree tree') ∨
      (answer = .ok (checkpointPath t.config t.epoch) ∧ t.Files tree tree') := by
  have hgrows := FileTree.grows_makeFolders tree t.config.outputPath
  rw [save_eq] at h
  generalize tree.makeFolders t.config.outputPath = making at h hgrows
  obtain ⟨cause | made, after⟩ := making
  · cases h
    exact .inl ⟨⟨_, rfl⟩, hgrows⟩
  · dsimp only at h
    cases hwrite : after.write (checkpointPath t.config t.epoch)
      (Snapshot.write t.policy.parameters) with
    | error cause =>
      rw [hwrite] at h
      cases h
      exact .inl ⟨⟨_, rfl⟩, hgrows⟩
    | ok written =>
      rw [hwrite] at h
      cases h
      exact .inr ⟨rfl, after, hgrows, hwrite⟩

/-- An executed step whose checkpoint is due tells what became of saving it. -/
theorem optimize_of_due {epoch : UInt64} {loss : Float}
    (hlearn : t.learn = .ok (.ok (.executed epoch loss), t'))
    (hdue : t'.checkpointDue = .ok true) {saved : Except SnapshotError Path}
    (hsave : (t'.save : StateM FileTree _).run tree = (saved, tree')) :
    (t.optimize : StateM FileTree _).run tree =
      (.ok (.ok (.executed epoch loss (some (.ofSaved saved))), t'), tree') := by
  unfold optimize
  rw [hlearn]
  dsimp only
  rw [hdue]
  dsimp only
  rw [run_bind, hsave]
  cases saved <;> rfl

/-- A step adds folders at most, or it writes the checkpoint of the trainer that it leaves and says
so. -/
theorem optimize_cases {answer : Except StepError (StepReport Float)}
    (h : (t.optimize : StateM FileTree _).run tree = (.ok (answer, t'), tree')) :
    ((Answer.optimized answer).written? = none ∧ Grows tree tree') ∨
      ((Answer.optimized answer).written? = some (checkpointPath t'.config t'.epoch) ∧
        t'.Files tree tree') := by
  unfold optimize at h
  cases hlearn : t.learn with
  | error fault =>
    rw [hlearn] at h
    cases h
  | ok result =>
    rw [hlearn] at h
    obtain ⟨_ | _ | ⟨epoch, loss⟩, learned⟩ := result
    · cases h
      exact .inl ⟨rfl, .refl tree⟩
    · cases h
      exact .inl ⟨rfl, .refl tree⟩
    · dsimp only at h
      cases hdue : learned.checkpointDue with
      | error fault =>
        rw [hdue] at h
        cases h
      | ok due =>
        rw [hdue] at h
        cases due with
        | false =>
          cases h
          exact .inl ⟨rfl, .refl tree⟩
        | true =>
          dsimp only at h
          rw [run_bind] at h
          cases hsave : (learned.save : StateM FileTree _).run tree with
          | mk saved after =>
            rw [hsave] at h
            obtain ⟨⟨cause, rfl⟩, hgrows⟩ | ⟨rfl, hfiles⟩ := save_cases hsave
            · cases h
              exact .inl ⟨rfl, hgrows⟩
            · cases h
              exact .inr ⟨rfl, hfiles⟩

/-- An operation adds folders at most, or it writes the checkpoint of the trainer that it leaves
and says so. -/
theorem perform_cases {op : Operation Float} {answer : Answer Float}
    (h : (t.perform op : StateM FileTree _).run tree = (.ok (answer, t'), tree')) :
    (answer.written? = none ∧ Grows tree tree') ∨
      (answer.written? = some (checkpointPath t'.config t'.epoch) ∧ t'.Files tree tree') := by
  cases op with
  | predict | stage | revise | commit | clear | push =>
    have hperforms := performs_of_perform h
    obtain rfl : tree = tree' := congrArg Prod.snd h
    cases hperforms <;> exact .inl ⟨rfl, .refl tree⟩
  | optimize =>
    rw [perform, run_bind] at h
    cases hoptimize : (t.optimize : StateM FileTree _).run tree with
    | mk result after =>
      rw [hoptimize] at h
      obtain _ | ⟨report, trained⟩ := result
      · cases h
      · cases h
        exact optimize_cases hoptimize
  | save =>
    rw [perform, run_bind] at h
    cases hsave : (t.save : StateM FileTree _).run tree with
    | mk saved after =>
      rw [hsave] at h
      obtain ⟨⟨cause, rfl⟩, hgrows⟩ | ⟨rfl, hfiles⟩ := save_cases hsave
      · cases h
        exact .inl ⟨rfl, hgrows⟩
      · cases h
        exact .inr ⟨rfl, hfiles⟩

/-- What has been written is in its file, and the files of other checkpoints are as before. -/
theorem Files.read (h : t.Files tree tree') :
    tree'.read (checkpointPath t.config t.epoch) = .ok (Snapshot.write t.policy.parameters) ∧
      ∀ epoch text, epoch ≠ t.epoch → tree.read (checkpointPath t.config epoch) = .ok text →
        tree'.read (checkpointPath t.config epoch) = .ok text := by
  obtain ⟨grown, hgrows, hwrite⟩ := h
  refine ⟨FileTree.read_of_write hwrite, fun epoch text hne hread => ?_⟩
  exact FileTree.read_join_of_write_join (isFileName_checkpointName _)
    (isFileName_checkpointName _) (fun hname => hne (checkpointName_inj hname)) hwrite
    (FileTree.read_of_grows hgrows hread)

/-! ## An output folder that can be written -/

/-- The output folder can be made, and then the file of every checkpoint can be written in it. -/
structure AcceptsCheckpoints {α : Type} (config : Config α) (tree : FileTree) : Prop where
  made : (tree.makeFolders config.outputPath).1 = .ok ()
  writable : ∀ epoch, Writable (tree.makeFolders config.outputPath).2 (checkpointPath config epoch)

/-- The trail of the file of a checkpoint. -/
def checkpointTrail {α : Type} (config : Config α) (epoch : UInt64) : Trail :=
  FileTree.trailOf config.outputPath ++ [checkpointName epoch]

/-- An output folder that can be made, under a path that leaves room for the names of files, can be
written as long as nothing but files has these names. -/
theorem acceptsCheckpoints_of_made {α : Type} {config : Config α}
    (hmade : (tree.makeFolders config.outputPath).1 = .ok ())
    (hzero : Char.ofNat 0 ∉ config.outputPath.text.toList)
    (hshort : config.outputPath.text.utf8ByteSize ≤ 3800)
    (hvacant : ∀ epoch, (tree.makeFolders config.outputPath).2.node?
      (checkpointTrail config epoch) ≠ some .folder) : AcceptsCheckpoints config tree := by
  refine ⟨hmade, fun epoch => ?_⟩
  have hname := isFileName_checkpointName epoch
  have hpresentable : FileTree.Presentable (checkpointPath config epoch) :=
    FileTree.presentable_join hname hzero (by omega)
  have hlocate := (FileTree.locate_join_iff hname).2
    ⟨hpresentable, FileTree.enters_of_makeFolders hmade, rfl⟩
  exact ⟨FileTree.not_endsWith_join hname, _, hlocate, hvacant epoch⟩

/-- Where the output folder can be written, saving succeeds, adds the one file, and leaves the
folder writable. -/
theorem save_of_accepts (h : AcceptsCheckpoints t.config tree) :
    ∃ tree', (t.save : StateM FileTree _).run tree =
        (.ok (checkpointPath t.config t.epoch), tree') ∧
      AcceptsCheckpoints t.config tree' ∧
      ∀ trail, tree'.HasFile trail ↔
        tree.HasFile trail ∨ trail = checkpointTrail t.config t.epoch := by
  have hgrows := FileTree.grows_makeFolders tree t.config.outputPath
  have hsave := save_eq t tree
  obtain ⟨hmade, hwritable⟩ := h
  have hagain : ∀ {tree'}, FileTree.KeepsFolders (tree.makeFolders t.config.outputPath).2 tree' →
      tree'.makeFolders t.config.outputPath = (.ok (), tree') :=
    fun hkeeps => FileTree.makeFolders_again hmade hkeeps
  generalize tree.makeFolders t.config.outputPath = making at *
  obtain ⟨result, made⟩ := making
  subst hmade
  obtain ⟨tree', hwrite⟩ :=
    FileTree.exists_write_of_writable (hwritable t.epoch) (Snapshot.write t.policy.parameters)
  dsimp only at hsave hwritable hgrows hagain
  rw [hwrite] at hsave
  have hput := hwrite
  rw [checkpointPath, FileTree.write_join_iff (isFileName_checkpointName _)] at hput
  obtain ⟨_, _, hvacant, hput⟩ := hput
  have hkeeps : FileTree.KeepsFolders made tree' := by
    rw [hput]
    exact FileTree.keepsFolders_put hvacant _
  refine ⟨tree', hsave, ⟨?_, ?_⟩, ?_⟩
  · rw [hagain hkeeps]
  · intro epoch
    rw [hagain hkeeps]
    exact (hwritable epoch).of_write hwrite
  · intro trail
    rw [← hgrows.hasFile_iff, hput]
    exact FileTree.hasFile_put hvacant

end Trainer

end DeferredReward
