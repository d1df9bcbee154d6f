import DeferredReward.Proofs.Trainer.Files
import DeferredReward.Proofs.Trainer.Milestones
import DeferredReward.Proofs.Trainer.Saving

/-!
# Checkpoints over whole runs

Checkpoints of different epochs are different files, and parameters change
together with the epoch, so that checkpoints of one epoch have one content. Hence
a file, once written, keeps the parameters of its epoch through the rest of the
run, and a trainer can be started from them.

Main statements: `Filed.parameters_eq`, `Filed.checkpoint`, `builds_of_read`,
`checkpoints_of_runs`.
-/

namespace DeferredReward

namespace Trainer

variable {t t' : Trainer (Network Float) Float} {tree tree' : FileTree}

/-! ## Runs with their files -/

/-- What was asked, what was answered, and the trainer afterwards. -/
structure Moment where
  /-- The operation. -/
  op : Operation Float
  /-- Its answer. -/
  answer : Answer Float
  /-- The trainer after it. -/
  trainer : Trainer (Network Float) Float

/-- The trainers at the start and after each operation. -/
def reached (first : Trainer (Network Float) Float) (moments : List Moment) :
    List (Trainer (Network Float) Float) := first :: moments.map Moment.trainer

theorem mem_reached_append {first q : Trainer (Network Float) Float} {moments : List Moment}
    {m : Moment} :
    q ∈ reached first (moments ++ [m]) ↔ q ∈ reached first moments ∨ q = m.trainer := by
  rw [reached, List.map_append, ← List.cons_append, List.mem_append, List.map_singleton,
    List.mem_singleton, reached]

/-- The moments that lead from one trainer to another and leave a tree of files. Between two
operations others may change the tree, but what can be read under the output folder stays. -/
inductive Filed (first : Trainer (Network Float) Float) :
    List Moment → Trainer (Network Float) Float → FileTree → Prop where
  /-- Nothing has been asked yet. -/
  | start (tree : FileTree) : Filed first [] first tree
  /-- One more operation. -/
  | next {moments : List Moment} {t t' : Trainer (Network Float) Float} {tree tree' : FileTree}
      {op : Operation Float} {answer : Answer Float} (run : Filed first moments t tree)
      (h : (t.perform op : StateM FileTree _).run tree = (.ok (answer, t'), tree')) :
      Filed first (moments ++ [⟨op, answer, t'⟩]) t' tree'
  /-- A change that others have made. -/
  | others {moments : List Moment} {t : Trainer (Network Float) Float} {tree tree' : FileTree}
      (run : Filed first moments t tree)
      (h : ∀ name content, tree.read (first.config.outputPath.join name) = .ok content →
        tree'.read (first.config.outputPath.join name) = .ok content) :
      Filed first moments t tree'

section Run

variable {config : Config Float} {first : Trainer (Network Float) Float} {moments : List Moment}

/-- The moments of a run are its history. -/
theorem Filed.run (h : Filed first moments t tree) :
    Run FileTree first (moments.map fun m => (m.op, m.answer)) t := by
  induction h with
  | start => exact .start
  | next _ h ih =>
    rw [List.map_append, List.map_singleton]
    exact .next ih ⟨_, _, h⟩
  | others _ _ ih => exact ih

/-- An operation leaves the epoch and the parameters of the policy, or a later epoch is reached. -/
theorem epoch_cases (hstarted : Started config first) {history : History Float}
    (hrun : Run FileTree first history t) {op : Operation Float} {answer : Answer Float}
    (h : Performs t op answer t') :
    (t'.epoch = t.epoch ∧ t'.policy.parameters = t.policy.parameters) ∨
      t.epoch.toNat < t'.epoch.toNat := by
  obtain ⟨_, hsame⟩ | ⟨_, gradients, hadvances⟩ :=
    learning_cases (kindred_of_run hstarted.form hrun).form h
  · exact .inl ⟨hsame.epoch, hsame.policy⟩
  · have hepoch := (hadvances.toNat_epoch (steps_eq_epoch hstarted hrun)).2
    exact .inr (by omega)

/-- The trainers of a run up to now are of earlier epochs, or of the present one and then with the
parameters that the policy has now. -/
theorem Filed.past (hstarted : Started config first) (h : Filed first moments t tree) :
    ∀ q ∈ reached first moments, q.epoch.toNat < t.epoch.toNat ∨
      (q.epoch = t.epoch ∧ q.policy.parameters = t.policy.parameters) := by
  induction h with
  | start =>
    intro q hq
    rw [List.mem_singleton.1 hq]
    exact .inr ⟨rfl, rfl⟩
  | others _ _ ih => exact ih
  | @next moments t t' _ _ _ _ hbefore h ih =>
    intro q hq
    rw [mem_reached_append] at hq
    obtain hq | rfl := hq
    · have hpast := ih q hq
      obtain ⟨hepoch, hparameters⟩ | hlater :=
        epoch_cases hstarted hbefore.run (performs_of_perform h)
      · rw [hepoch, hparameters]
        exact hpast
      · obtain hearlier | ⟨hpresent, _⟩ := hpast
        · exact .inl (by omega)
        · exact .inl (by rw [hpresent]; exact hlater)
    · exact .inr ⟨rfl, rfl⟩

/-- In a run the epoch tells the parameters of the policy. -/
theorem Filed.parameters_eq (hstarted : Started config first) (h : Filed first moments t tree) :
    ∀ q ∈ reached first moments, ∀ q' ∈ reached first moments, q.epoch = q'.epoch →
      q.policy.parameters = q'.policy.parameters := by
  induction h with
  | start =>
    intro q hq q' hq' _
    rw [List.mem_singleton.1 hq, List.mem_singleton.1 hq']
  | others _ _ ih => exact ih
  | @next moments t t' _ _ _ _ hbefore h ih =>
    have hpresent : ∀ q ∈ reached first moments, q.epoch = t'.epoch →
        q.policy.parameters = t'.policy.parameters := by
      intro q hq hepoch
      obtain hearlier | ⟨_, hparameters⟩ :=
        (hbefore.next h).past hstarted q (mem_reached_append.2 (.inl hq))
      · rw [hepoch] at hearlier
        exact absurd hearlier (Nat.lt_irrefl _)
      · exact hparameters
    intro q hq q' hq' hepoch
    rw [mem_reached_append] at hq hq'
    obtain hq | rfl := hq <;> obtain hq' | rfl := hq'
    · exact ih q hq q' hq' hepoch
    · exact hpresent q hq hepoch
    · exact (hpresent q' hq' hepoch.symm).symm
    · rfl

/-- The policies of a run have parameters of one layout. -/
theorem Filed.layout_eq (hstarted : Started config first) (h : Filed first moments t tree) :
    ∀ q ∈ reached first moments, q.policy.parameters.layout = first.policy.parameters.layout := by
  induction h with
  | start =>
    intro q hq
    rw [List.mem_singleton.1 hq]
  | others _ _ ih => exact ih
  | next hbefore h ih =>
    intro q hq
    rw [mem_reached_append] at hq
    obtain hq | rfl := hq
    · exact ih q hq
    · exact Network.layout_of_form (kindred_of_run hstarted.form (hbefore.next h).run).policy

/-- What has been reported as saved is in the file of its epoch, and still is after the run. -/
theorem Filed.checkpoint (hstarted : Started config first) (h : Filed first moments t tree) :
    ∀ m ∈ moments, ∀ path, m.answer.written? = some path →
      path = checkpointPath config m.trainer.epoch ∧
        tree.read path = .ok (Snapshot.write m.trainer.policy.parameters) := by
  induction h with
  | start => exact fun m hm => nomatch hm
  | others _ h ih =>
    intro m hm path hpath
    obtain ⟨rfl, hread⟩ := ih m hm path hpath
    rw [checkpointPath, ← hstarted.config_eq] at hread ⊢
    exact ⟨rfl, h _ _ hread⟩
  | @next moments t t' tree tree' op answer hbefore h ih =>
    have hsame := (hbefore.next h).parameters_eq hstarted
    have hconfig : t'.config = config :=
      (kindred_of_run hstarted.form (hbefore.next h).run).config.trans hstarted.config_eq
    obtain ⟨hnone, hgrows⟩ | ⟨hwritten, hfiles⟩ := perform_cases h
    · intro m hm path hpath
      obtain hm | hm := List.mem_append.1 hm
      · obtain ⟨rfl, hread⟩ := ih m hm path hpath
        exact ⟨rfl, FileTree.read_of_grows hgrows hread⟩
      · obtain rfl := List.mem_singleton.1 hm
        cases hnone.symm.trans hpath
    · rw [hconfig] at hwritten
      obtain ⟨hread, hothers⟩ := hfiles.read
      rw [hconfig] at hread hothers
      intro m hm path hpath
      have hmem : m.trainer ∈ reached first (moments ++ [⟨op, answer, t'⟩]) :=
        List.mem_cons_of_mem _ (List.mem_map_of_mem hm)
      have hpathEq : path = checkpointPath config m.trainer.epoch := by
        obtain hm | hm := List.mem_append.1 hm
        · exact (ih m hm path hpath).1
        · obtain rfl := List.mem_singleton.1 hm
          exact Option.some.inj (hpath.symm.trans hwritten)
      refine ⟨hpathEq, ?_⟩
      by_cases hepoch : m.trainer.epoch = t'.epoch
      · -- The file is that of the present epoch, for which no other parameters were saved before.
        rw [hpathEq, hepoch, hread,
          hsame m.trainer hmem t' (mem_reached_append.2 (.inr rfl)) hepoch]
      · obtain hm | hm := List.mem_append.1 hm
        · obtain ⟨rfl, hbeforeRead⟩ := ih m hm path hpath
          exact hothers _ _ hepoch hbeforeRead
        · obtain rfl := List.mem_singleton.1 hm
          exact absurd rfl hepoch

/-! ## Starting from a checkpoint -/

/-- Building a trainer succeeds and leaves the files as they are, and both networks of the trainer
have these parameters. -/
def BuildsWith (tree : FileTree) (p : Parameters Float)
    (building : StateM FileTree
      (Except Fault (Except (BuildError Float) (Trainer (Network Float) Float)))) : Prop :=
  ∃ t, building.run tree = (.ok (.ok t), tree) ∧ t.policy.parameters = p ∧ t.target.parameters = p

/-- From the file of finite parameters of its layout a network is given these parameters. -/
theorem builds_of_read {config : Config Float} {p : Parameters Float} {path : Path}
    (hread : tree.read path = .ok (Snapshot.write p)) (hp : Snapshot.Storable p)
    (hfinite : Snapshot.AllFinite p) (hload : config.loadModel = true)
    (hpath : config.loadPath = some path) {network : Network Float}
    (hlayout : p.layout = network.parameters.layout) :
    BuildsWith tree p (build config network) := by
  obtain ⟨policy, hinstall, hpolicy, _⟩ := Network.install_of_layout hlayout
  have hloaded := Snapshot.load_of_read hread
  rw [(Snapshot.read_write hp).1 hfinite] at hloaded
  have hrun : (build config network : StateM FileTree _).run tree =
      (start config policy, tree) := by
    unfold build
    rw [hload, hpath]
    dsimp only
    rw [run_bind, hloaded]
    dsimp only
    have hsame : Trainable.install network p = .ok (.ok policy) := hinstall
    rw [hsame]
    rfl
  refine ⟨atStart config policy, ?_, hpolicy, ?_⟩
  · rw [hrun, start_eq]
  · exact (parameters_atStart config policy).trans hpolicy

/-- A trainer of a network or of a configuration, given the file of finite parameters of its layout
to start from, has these parameters in both its networks. -/
theorem builds_of_checkpoint {config : Config Float} {p : Parameters Float} {path : Path}
    (hread : tree.read path = .ok (Snapshot.write p)) (hp : Snapshot.Storable p)
    (hfinite : Snapshot.AllFinite p) (hvalid : config.validate = .ok ())
    (hload : config.loadModel = true) (hpath : config.loadPath = some path)
    {sample : Network Float} (hlayout : p.layout = sample.parameters.layout) :
    (∀ network : Network Float, network.form = sample.form →
      BuildsWith tree p (ofNetwork config network)) ∧
    (∀ inputSize, config.inputSize = some inputSize →
      (Network.drawPredictor (α := Float) inputSize.toNat (config.hiddenSizes.map UInt64.toNat)
        config.hiddenActivation (.ofSeed config.seed)).1.form = sample.form →
      BuildsWith tree p (ofConfig config)) := by
  have hbuild : ∀ network : Network Float, network.form = sample.form →
      BuildsWith tree p (build config network) := fun network hform =>
    builds_of_read hread hp hfinite hload hpath (hlayout.trans (Network.layout_of_form hform).symm)
  constructor
  · intro network hform
    unfold ofNetwork
    rw [hvalid]
    exact hbuild network hform
  · intro inputSize hinputSize hform
    unfold ofConfig
    rw [hvalid, hinputSize]
    exact hbuild _ hform

end Run

/-- Whatever becomes of checkpoints, two runs of one trainer that is asked the same get the same
answers, apart from what is told about files, and leave the same trainer, and the next operation
does so too. As long as others leave the output folder alone, every file that was reported as saved
is named for the epoch it was saved in and holds the parameters that the policy has in all of that
epoch, ever after. When they are finite, a new trainer of networks of this form that starts from the
file is built with these parameters in both networks. -/
theorem checkpoints_of_runs {σ σ' : Type} [SnapshotStore (StateM σ) Float]
    [SnapshotStore (StateM σ') Float] {config : Config Float}
    {first : Trainer (Network Float) Float} (hbuilt : Built σ config first) :
    (∀ {history history' : History Float} {t t' : Trainer (Network Float) Float},
      Run σ first history t → Run σ' first history' t' →
      history.map Prod.fst = history'.map Prod.fst →
        history.outcomes = history'.outcomes ∧ t = t' ∧ ∀ op (store : σ) (store' : σ'),
          SameOutcome (AnswersAlike Eq) ((t.perform op : StateM σ _).run store).1
            ((t'.perform op : StateM σ' _).run store').1) ∧
    (∀ {moments : List Moment} {t : Trainer (Network Float) Float} {tree : FileTree},
      Filed first moments t tree → ∀ m ∈ moments, ∀ path, m.answer.written? = some path →
        path = config.outputPath.join s!"epoch_{m.trainer.epoch}.json" ∧
        ∀ q ∈ reached first moments, q.epoch = m.trainer.epoch →
          tree.read path = .ok (Snapshot.write q.policy.parameters) ∧
          (Snapshot.Storable q.policy.parameters → Snapshot.AllFinite q.policy.parameters →
            ∀ config' : Config Float, config'.validate = .ok () → config'.loadModel = true →
              config'.loadPath = some path →
              (∀ network : Network Float, network.form = first.policy.form →
                BuildsWith tree q.policy.parameters (ofNetwork config' network)) ∧
              (∀ inputSize, config'.inputSize = some inputSize →
                (Network.drawPredictor (α := Float) inputSize.toNat
                  (config'.hiddenSizes.map UInt64.toNat) config'.hiddenActivation
                  (.ofSeed config'.seed)).1.form = first.policy.form →
                BuildsWith tree q.policy.parameters (ofConfig config')))) := by
  have hstarted := started_of_built hbuilt
  constructor
  · intro history history' t t' hrun hrun' hops
    obtain ⟨houtcomes, rfl⟩ := runs_of_stores hrun hrun' hops
    exact ⟨houtcomes, rfl, fun op store store' => perform_of_stores t op store store'⟩
  · intro moments t tree hfiled m hm path hpath
    obtain ⟨hname, hread⟩ := hfiled.checkpoint hstarted m hm path hpath
    refine ⟨hname, fun q hq hepoch => ?_⟩
    have hmem : m.trainer ∈ reached first moments :=
      List.mem_cons_of_mem _ (List.mem_map_of_mem hm)
    rw [← hfiled.parameters_eq hstarted q hq m.trainer hmem hepoch] at hread
    refine ⟨hread, fun hp hfinite config' hvalid hload hpath' => ?_⟩
    exact builds_of_checkpoint hread hp hfinite hvalid hload hpath' (hfiled.layout_eq hstarted q hq)

/-- The output folder of `singleConfig` can be made and written in an empty tree. -/
theorem acceptsCheckpoints_empty : AcceptsCheckpoints singleConfig FileTree.empty := by
  have hmade : (FileTree.empty.makeFolders ⟨"checkpoints"⟩).1.isOk = true := by decide +kernel
  have hnodes : (FileTree.empty.makeFolders ⟨"checkpoints"⟩).2.nodes =
      [(["checkpoints"], .folder)] := by decide +kernel
  have htrail : FileTree.trailOf ⟨"checkpoints"⟩ = ["checkpoints"] := by decide +kernel
  refine acceptsCheckpoints_of_made ?_ (by decide) (by decide) fun epoch => ?_
  · cases h : (FileTree.empty.makeFolders ⟨"checkpoints"⟩).1 with
    | error cause =>
      rw [h] at hmade
      cases hmade
    | ok => exact h
  · have hfolder : singleConfig.outputPath = ⟨"checkpoints"⟩ := rfl
    rw [checkpointTrail, hfolder, htrail]
    simp [FileTree.node?, hnodes]

/-- A tree with a file in the place of that folder. -/
def blockedTree : FileTree := ⟨[(["checkpoints"], .file "")]⟩

/-- In such a tree no checkpoint of `singleConfig` can be saved. -/
theorem save_blockedTree : ∃ cause tree', ∀ t : Trainer (Network Float) Float,
    t.config = singleConfig →
      (t.save : StateM FileTree _).run blockedTree = (.error cause, tree') := by
  have hblocked : (blockedTree.makeFolders ⟨"checkpoints"⟩).1.isOk = false := by decide +kernel
  have hfolder : singleConfig.outputPath = ⟨"checkpoints"⟩ := rfl
  rcases hmake : blockedTree.makeFolders ⟨"checkpoints"⟩ with ⟨cause | made, after⟩
  · refine ⟨.file ⟨"checkpoints"⟩ cause, after, fun t hconfig => ?_⟩
    rw [save_eq, hconfig, hfolder, hmake]
  · rw [hmake] at hblocked
    cases hblocked

/-- The settings of a trainer that starts from a checkpoint of `singleConfig`. -/
def warmConfig : Config Float :=
  { singleConfig with loadModel := true, loadPath := some ⟨"checkpoints/epoch_1.json"⟩ }

theorem validate_warmConfig : warmConfig.validate = .ok () := by
  rw [Config.validate_eq_ok_iff]
  decide +kernel

/-- The step of `pairTrainer` on one transition is executed, and leaves finite parameters. -/
theorem learn_pairTrainer : ∃ loss trained,
    (pairTrainer.push pairTransition).learn = .ok (.ok (.executed 1 loss), trained) ∧
      trained.config = singleConfig ∧ trained.epoch = 1 ∧
      Snapshot.Storable trained.policy.parameters ∧
      Snapshot.AllFinite trained.policy.parameters := by
  have hlearned : ((pairTrainer.push pairTransition).learn.toOption.map fun result =>
      (Progress.isExecuted result.1, result.2.epoch,
        decide (Snapshot.Storable result.2.policy.parameters),
        decide (Snapshot.AllFinite result.2.policy.parameters))) = some (true, 1, true, true) := by
    decide +kernel
  cases hlearn : (pairTrainer.push pairTransition).learn with
  | error fault =>
    rw [hlearn] at hlearned
    cases hlearned
  | ok result =>
    obtain ⟨answer, trained⟩ := result
    rw [hlearn] at hlearned
    simp only [Except.toOption, Option.map_some, Option.some.injEq, Prod.mk.injEq,
      decide_eq_true_eq] at hlearned
    obtain ⟨hexecuted, hepoch, hstorable, hfinite⟩ := hlearned
    have hform : (pairTrainer.push pairTransition).target.form =
        (pairTrainer.push pairTransition).policy.form := (started_of_built built_pairTrainer).form
    obtain ⟨_, rfl, _⟩ | ⟨_, _, rfl, _⟩ | ⟨_, _, _, loss, hdescends, rfl, rfl⟩ :=
      learn_cases hform hlearn
    · cases hexecuted
    · cases hexecuted
    · rw [hepoch]
      exact ⟨loss, _, rfl, hdescends.config, hepoch, hstorable, hfinite⟩

/-- `pairTrainer` saves its parameters, is given a transition, makes a step with this loss that
saves the checkpoint of the first epoch, and is asked to save it once more. -/
def trainedMoments (loss : Float) (trained : Trainer (Network Float) Float) : List Moment :=
  [⟨.save, .saved (.ok ⟨"checkpoints/epoch_0.json"⟩), pairTrainer⟩,
    ⟨.push pairTransition, .done, pairTrainer.push pairTransition⟩,
    ⟨.optimize, .optimized (.ok (.executed 1 loss (some (.saved ⟨"checkpoints/epoch_1.json"⟩)))),
      trained⟩,
    ⟨.save, .saved (.ok ⟨"checkpoints/epoch_1.json"⟩), trained⟩]

/-- The same operations where no checkpoint can be saved. -/
def blockedHistory (loss : Float) (cause : SnapshotError) : History Float :=
  [(.save, .saved (.error cause)), (.push pairTransition, .done),
    (.optimize, .optimized (.ok (.executed 1 loss (some (.failed cause))))),
    (.save, .saved (.error cause))]

/-- The checkpoints from before a step and after it can both be read at the end, and a trainer that
starts from the second one has the parameters that the step has left. Where the output folder
cannot be made the same step leaves the same trainer. -/
theorem checkpoints_of_runs_pairTrainer : ∃ loss trained cause tree,
    Filed pairTrainer (trainedMoments loss trained) trained tree ∧
    tree.read ⟨"checkpoints/epoch_0.json"⟩ = .ok (Snapshot.write pairTrainer.policy.parameters) ∧
    tree.read ⟨"checkpoints/epoch_1.json"⟩ = .ok (Snapshot.write trained.policy.parameters) ∧
    BuildsWith tree trained.policy.parameters (ofNetwork warmConfig pairTrainer.policy) ∧
    ∃ t, Run FileTree pairTrainer (blockedHistory loss cause) t ∧ t = trained := by
  have hfirst : checkpointPath singleConfig 0 = ⟨"checkpoints/epoch_0.json"⟩ := by decide +kernel
  have hsecond : checkpointPath singleConfig 1 = ⟨"checkpoints/epoch_1.json"⟩ := by decide +kernel
  have hsaves : ∀ {t : Trainer (Network Float) Float} {tree tree' : FileTree} {saved},
      (t.save : StateM FileTree _).run tree = (saved, tree') →
        (t.perform .save : StateM FileTree _).run tree = (.ok (.saved saved, t), tree') := by
    intro t tree tree' saved hsave
    rw [perform, run_bind, hsave]
    rfl
  obtain ⟨loss, trained, hlearn, hconfig, hepoch, hstorable, hfinite⟩ := learn_pairTrainer
  have hdue : trained.checkpointDue = .ok true := by
    rw [checkpointDue, hconfig, hepoch]
    rfl
  have hsteps : ∀ {tree tree' : FileTree} {saved},
      (trained.save : StateM FileTree _).run tree = (saved, tree') →
        ((pairTrainer.push pairTransition).perform .optimize : StateM FileTree _).run tree =
          (.ok (.optimized (.ok (.executed 1 loss (some (.ofSaved saved)))), trained), tree') := by
    intro tree tree' saved hsave
    rw [perform, run_bind, optimize_of_due hlearn hdue hsave]
    rfl
  -- In an empty tree every checkpoint is saved.
  obtain ⟨opened, hopened, hopen, _⟩ := save_of_accepts (t := pairTrainer) acceptsCheckpoints_empty
  have htrained : AcceptsCheckpoints trained.config opened := by
    rw [hconfig]
    exact hopen
  obtain ⟨stepped, hstepped, hstill, _⟩ := save_of_accepts htrained
  obtain ⟨tree, hsaved, _⟩ := save_of_accepts hstill
  rw [show checkpointPath pairTrainer.config pairTrainer.epoch = _ from hfirst] at hopened
  rw [hconfig, hepoch, hsecond] at hstepped hsaved
  have hpush : (pairTrainer.perform (.push pairTransition) : StateM FileTree _).run opened =
      (.ok (.done, pairTrainer.push pairTransition), opened) := rfl
  have hfiled : Filed pairTrainer (trainedMoments loss trained) trained tree :=
    ((((Filed.start .empty).next (hsaves hopened)).next hpush).next (hsteps hstepped)).next
      (hsaves hsaved)
  -- In a tree without room for the output folder none is.
  obtain ⟨cause, after, hblocked⟩ := save_blockedTree
  have hrun : Run FileTree pairTrainer (blockedHistory loss cause) trained :=
    .next (.next (.next (.next .start ⟨_, _, hsaves (hblocked pairTrainer rfl)⟩)
      ⟨blockedTree, _, rfl⟩) ⟨_, _, hsteps (hblocked trained hconfig)⟩)
      ⟨_, _, hsaves (hblocked trained hconfig)⟩
  obtain ⟨hstores, hcheckpoints⟩ := @checkpoints_of_runs FileTree FileTree _ _ _ _ built_pairTrainer
  obtain ⟨_, hsame, _⟩ := hstores hfiled.run hrun rfl
  obtain ⟨_, hbefore⟩ := hcheckpoints hfiled _ (.head _) _ rfl
  obtain ⟨hread₀, _⟩ := hbefore pairTrainer (.head _) rfl
  have hlast : (⟨.save, .saved (.ok ⟨"checkpoints/epoch_1.json"⟩), trained⟩ : Moment) ∈
      trainedMoments loss trained := .tail _ (.tail _ (.tail _ (.head _)))
  obtain ⟨_, hafter⟩ := hcheckpoints hfiled _ hlast _ rfl
  obtain ⟨hread₁, hbuilds⟩ := hafter trained (List.mem_cons_of_mem _ (List.mem_map_of_mem hlast)) rfl
  obtain ⟨hofNetwork, _⟩ := hbuilds hstorable hfinite warmConfig validate_warmConfig rfl rfl
  exact ⟨loss, trained, cause, tree, hfiled, hread₀, hread₁, hofNetwork _ rfl, trained, hrun,
    hsame.symm⟩

end Trainer

end DeferredReward
