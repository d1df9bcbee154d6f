import DeferredReward.CommandLine.Episodes
import DeferredReward.Proofs.Trainer.Readiness

/-!
# Episodes of a ready trainer

An episode of any length puts as many transitions into the memory of a ready
trainer, as far as there is room, and changes nothing that has been learned.

Main statements: `observe_of_ready`, `playEpisode_of_ready`.
-/

namespace DeferredReward.CommandLine

open Trainer (Ready)

variable {α : Type} [Analysis α] {width : ℕ}

/-- From the first trainer to the second so many observations have been staged. -/
structure Staged (width count : ℕ) (t t' : Trainer (Network α) α) : Prop where
  ready : Ready width t'
  eq : t' = { t with staging := t'.staging }
  size : t'.staging.size = t.staging.size + count

namespace Staged

/-- One observation after another. -/
theorem trans {count later : ℕ} {t t' t'' : Trainer (Network α) α} (h : Staged width count t t')
    (h' : Staged width later t' t'') : Staged width (count + later) t t'' where
  ready := h'.ready
  eq := by
    have heq := h'.eq
    rw [h.eq] at heq
    exact heq
  size := by
    have hsize := h.size
    have hsize' := h'.size
    omega

/-- An observation of the right width is staged by a ready trainer. -/
theorem of_stage {t : Trainer (Network α) α} (h : Ready width t) (transition : Transition α)
    (hwidth : transition.features.size = width) :
    ∃ t', t.stage transition = .ok t' ∧ Staged width 1 t t' := by
  have hstage := StagingArea.stage_of_some h.featureLength transition
  rw [if_pos hwidth.symm] at hstage
  have hstaged := Trainer.stage_eq_ok_iff.2 ⟨_, hstage, rfl⟩
  have hpushes : (Operation.stage transition).Pushes width := trivial
  refine ⟨_, hstaged, Trainer.ready_of_performs h hpushes (.stage hstaged), rfl, ?_⟩
  exact Array.size_push transition

end Staged

/-- A ready trainer predicts and stages observations of its width. -/
theorem observe_of_ready (count : ℕ) (seen : List (Array α)) (run : Run α)
    (h : Ready width run.trainer) :
    ∃ observed run', observe width count seen run = .ok (.ok (observed, run')) ∧
      Staged width count run.trainer run'.trainer := by
  induction count generalizing seen run with
  | zero => exact ⟨_, run, rfl, h, rfl, rfl⟩
  | succ count ih =>
    rw [observe]
    have hwidth : (run.generator.reals (0 : α) 1 width).1.size = width :=
      (Generator.size_realsOnto ..).trans (Nat.zero_add width)
    generalize run.generator.reals (0 : α) 1 width = drawn at hwidth
    obtain ⟨features, generator⟩ := drawn
    have hcols : (Matrix.row features).cols = width := hwidth
    obtain ⟨hy, _⟩ := h.policy.predict_eq hcols
    obtain ⟨probability, hpredict⟩ : ∃ probability,
        run.trainer.predict features = .ok (.ok probability) := ⟨_, bind_eq_of_ok hy⟩
    obtain ⟨trainer, hstage, hstaged⟩ :=
      Staged.of_stage h ⟨features, probability, probability⟩ hwidth
    obtain ⟨observed, run', hobserve, hrest⟩ :=
      ih (features :: seen) { run with trainer, generator } hstaged.ready
    refine ⟨observed, run', ?_, Nat.add_comm 1 count ▸ hstaged.trans hrest⟩
    dsimp only
    rw [bind_eq_of_ok hpredict]
    dsimp only
    rw [hstage]
    exact hobserve

/-- From the first trainer to the second an episode of that length has been put into the memory. -/
structure Played (width length : ℕ) (t t' : Trainer (Network α) α) : Prop where
  ready : Ready width t'
  eq : t' = { t with memory := t'.memory, staging := t'.staging }
  capacity : t'.memory.capacity = t.memory.capacity
  size : t'.memory.size = min (t.memory.size + length) t.memory.capacity
  staged : t'.staging.size = 0

/-- A ready trainer with nothing staged plays an episode, whatever its length. -/
theorem playEpisode_of_ready (length : ℕ) {run : Run α} (h : Ready width run.trainer)
    (hstaged : run.trainer.staging.size = 0) :
    ∃ run', playEpisode width length run = .ok (.ok run') ∧
      Played width length run.trainer run'.trainer := by
  obtain ⟨observed, seen, hobserve, hready, heq, hsize⟩ :=
    observe_of_ready length [] run h
  have hrevises : (Operation.revise (outcome observed)).Pushes width := trivial
  have hcommits : (Operation.commit : Operation α).Pushes width := trivial
  have hrevised := Trainer.ready_of_performs hready hrevises (.revise (outcome observed))
  have hcommitted := Trainer.ready_of_performs hrevised hcommits .commit
  have hmemory : seen.trainer.memory = run.trainer.memory := by rw [heq]
  refine ⟨{ seen with trainer := (seen.trainer.revise (outcome observed)).commit.2 }, ?_,
    hcommitted, ?_, ?_, ?_, rfl⟩
  · exact bind_eq_of_ok hobserve
  · dsimp only
    rw [heq]
    rfl
  · rw [heq]
    exact run.trainer.memory.capacity_pushAll _
  · have hlength : (seen.trainer.revise (outcome observed)).staging.transitions.toList.length =
        length := by
      rw [Trainer.revise, StagingArea.revise, Array.length_toList, Array.size_map]
      change seen.trainer.staging.size = length
      omega
    have hpushed := seen.trainer.memory.size_pushAll
      (seen.trainer.revise (outcome observed)).staging.transitions.toList
    refine hpushed.trans ?_
    rw [hlength, hmemory]

end DeferredReward.CommandLine
