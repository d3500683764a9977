import AceMesh.Suspension

/-!
# Tasks that are executed once

The kernels delete the tasks of a graph that is not stored for reuse, each build in its own
way. When `spawn_and_wait` has returned and the threads are idle, a task is through, and whether
it has been deleted depends on the memory it was made in and on the thread of its final run
(`Tracks.deleted_iff`). The end task is made by `end_construct_dag`, with a clear `reused`, and
is always deleted.
-/

namespace AceMesh.MpiStrategy

open Suspend (Act Stage)

variable {m : Nat}

/-- Deleted once, and nothing has happened to the object since. -/
def Kernels.DeletedOnce (s : Kernels m) (t : TaskId) : Prop :=
  (Suspend.history s.log t).count .delete = 1 ∧
    (Suspend.history s.log t).getLast? = some .delete

instance (s : Kernels m) (t : TaskId) : Decidable (s.DeletedOnce t) :=
  inferInstanceAs (Decidable (_ ∧ _))

/-- `spawn_and_wait` has returned, and no thread has a task. -/
structure Kernels.Idle (s : Kernels m) : Prop where
  main : s.main = .prog
  searching : ∀ i, (s.pc i).searching = true

/-- The thread that has finished the final run of a task is not the main thread. -/
def Kernels.NotByMain (s : Kernels m) (t : TaskId) : Prop :=
  ⟨.main, t, .finish false⟩ ∉ s.log

instance (s : Kernels m) (t : TaskId) : Decidable (s.NotByMain t) :=
  inferInstanceAs (Decidable (¬ _))

theorem count_delete_suspendedRuns (n : Nat) :
    (Suspend.suspendedRuns n : List (Act TaskId)).count .delete = 0 := by
  rw [List.count_eq_zero]
  intro hmem
  obtain ⟨l, hl, hmem⟩ := List.mem_flatten.mp hmem
  rw [List.eq_of_mem_replicate hl] at hmem
  simp [Suspend.suspendedRun] at hmem

theorem count_delete_finalRun (outs : List TaskId) :
    (Suspend.finalRun outs).count .delete = 0 := by
  rw [List.count_eq_zero]
  simp [Suspend.finalRun]

namespace Tracks

variable {b : Strategy} {nodes : Finset TaskId} {e : TaskId} {h₀ : Heap}
  {blocking : TaskId → Bool} {old : Thread m → Bool} {s : Kernels m}
  {a : Suspend.State TaskId (Thread m)} (h : Tracks b nodes e h₀ blocking old s a)
include h

/-- In the end no task is anywhere, so all are gone. -/
theorem gone_of_idle (hruns : Runs nodes e h₀) (hidle : s.Idle) {t : TaskId} (ht : t ∈ nodes) :
    ∃ i deleted, a.stage t = .gone i deleted := by
  have hend := h.ended (by rw [hidle.main]; rfl)
  have hdone := h.done_of_ended hruns hend ht
  cases hstage : a.stage t with
  | gone i deleted => exact ⟨i, deleted, rfl⟩
  | walking i k =>
      obtain ⟨place, hplace⟩ := h.placed.shown.exists_place (u := t) (by rw [hstage]; rfl)
      rw [hstage] at hplace
      cases place with
      | root => simp [Kernels.content] at hplace
      | queue q => simp [Kernels.content] at hplace
      | hand j => simp [Kernels.content, Pc.view_searching (hidle.searching j)] at hplace
  | waiting => rw [hstage] at hdone; exact absurd hdone (Nat.lt_irrefl 0)
  | ready => rw [hstage] at hdone; exact absurd hdone (Nat.lt_irrefl 0)
  | started i => rw [hstage] at hdone; exact absurd hdone (Nat.lt_irrefl 0)
  | stopped i suspended => rw [hstage] at hdone; exact absurd hdone (Nat.lt_irrefl 0)

/-- Whether a task has been deleted depends on its thread, its type and its memory. -/
theorem deleted_iff {t : TaskId} (ht : t ∈ nodes) {i : Thread m} {deleted : Bool}
    (hstage : a.stage t = .gone i deleted) :
    s.DeletedOnce t ↔ Kernels.deletes b i (h₀ t).reused (blocking t) false = true := by
  obtain ⟨n, hn⟩ := h.inv.follows t ht
  rw [hstage] at hn
  unfold Kernels.DeletedOnce
  rw [h.log, hn, ← h.gone t i deleted hstage]
  cases deleted with
  | true =>
      refine iff_of_true ⟨?_, ?_⟩ rfl
      · simp [Stage.tail, count_delete_suspendedRuns, count_delete_finalRun]
      · simp [Stage.tail, ← List.append_assoc]
  | false =>
      refine iff_of_false (fun hand => ?_) Bool.false_ne_true
      have hcount := hand.1
      simp [Stage.tail, count_delete_suspendedRuns, count_delete_finalRun] at hcount

theorem endTask_deleted_iff (hmain : s.main = .prog) :
    s.DeletedOnce e ↔ (h₀ e).reused = false := by
  unfold Kernels.DeletedOnce
  rw [h.endTask, hmain]
  cases (h₀ e).reused with
  | true => simp [MainPc.dropped]
  | false => simp [MainPc.dropped]

/-- The thread of the final run, as far as the builds restrict it. -/
theorem thread_of_gone {t : TaskId} {i : Thread m} {deleted : Bool}
    (hstage : a.stage t = .gone i deleted) :
    (b = .extraThread → blocking t = true → i = .mpi) ∧
      (b ≠ .extraThread → ∃ j, i = .worker j) := by
  refine ⟨fun hb hblocking => ?_, fun hb => ?_⟩
  · cases i with
    | mpi => rfl
    | worker j =>
        have hordinary := h.placed.mpi hb t j (by rw [hstage]; rfl)
        rw [h.types, hblocking] at hordinary
        cases hordinary
  · cases i with
    | mpi => exact absurd (h.present t (by rw [hstage]; rfl)) hb
    | worker j => exact ⟨j, rfl⟩

end Tracks

/-- When `spawn_and_wait` has returned and the threads are idle, every task and the end task
have been deleted exactly once, after their final executions, if and only if the tasks were
allocated in memory with a clear `reused` and the build has a deletion for the thread of each
final run. Of the end task only the counter has been written since it was made
(`Book.endConstructDag_new`). -/
theorem deleted_once_iff {b : Strategy} {nodes : Finset TaskId} {e : TaskId} {roots : List TaskId}
    {s₀ s : Kernels m} (hready : Ready nodes e roots s₀)
    (hend : s₀.heap e = { Task.newEmpty with refCount := (s₀.heap e).refCount })
    (hsteps : (s₀.spawn e roots).Steps b s) (hidle : s.Idle) :
    ((∀ t ∈ nodes, s.DeletedOnce t) ∧ s.DeletedOnce e) ↔
      (∀ t ∈ nodes, (s₀.heap t).reused = false) ∧
      match b with
      | .notMpi => True
      | .extraThread => ∀ t ∈ nodes, s₀.blocking t = true
      | .blockingQueue => ∀ t ∈ nodes, s.NotByMain t := by
  obtain ⟨old₀, a₀, hstart⟩ := hready.tracks b
  obtain ⟨old, a, h⟩ := hstart.steps hready.runs hsteps
  have htask : ∀ t ∈ nodes, s.DeletedOnce t ↔ (s₀.heap t).reused = false ∧
      match b with
      | .notMpi => True
      | .extraThread => s₀.blocking t = true
      | .blockingQueue => s.NotByMain t := by
    intro t ht
    obtain ⟨i, deleted, hstage⟩ := h.gone_of_idle hready.runs hidle ht
    rw [h.deleted_iff ht hstage]
    obtain ⟨hmpi, hworker⟩ := h.thread_of_gone hstage
    cases b with
    | notMpi => simp [Kernels.deletes]
    | extraThread =>
        cases i with
        | mpi => simp [Kernels.deletes]
        | worker j =>
            have hordinary : s₀.blocking t ≠ true := fun hblocking => by
              cases hmpi rfl hblocking
            simp [Kernels.deletes, hordinary]
    | blockingQueue =>
        obtain ⟨j, rfl⟩ := hworker nofun
        have hby : s.NotByMain t ↔ j.val ≠ 0 := by
          unfold Kernels.NotByMain
          rw [h.log, h.inv.finisher t ht, hstage]
          simp [Stage.finisher]
        simp only [Kernels.deletes, hby]
        simp [and_comm]
  have hclear : (s₀.heap e).reused = false := by
    rw [hend]
    rfl
  rw [and_iff_left ((h.endTask_deleted_iff hidle.main).mpr hclear)]
  cases b with
  | notMpi =>
      simp only [and_true] at htask ⊢
      rw [forall₂_congr htask]
  | extraThread =>
      dsimp only at htask ⊢
      rw [forall₂_congr htask]
      grind
  | blockingQueue =>
      dsimp only at htask ⊢
      rw [forall₂_congr htask]
      grind

namespace Example

/-- One task, and the memory of all objects clear. -/
def graph : TaskDagGraph :=
  ((TaskDagGraph.init 1).buildAll [.beginSplitTask, .registerTask AceMesh.Example.writer,
    .endSplitTask]).endConstructDag

/-- The task is not a `BLOCKING_TASK`. -/
def single : Kernels 0 := Kernels.initial graph.heap (fun _ => false) fun _ => false

theorem ready_single : Ready (Finset.Ico 0 1) 1 [0] single :=
  ready_of_round (r := Runtime.initial graph)
    (((blank_init 1).book.buildAll _).ready
      ⟨fun _ => rfl, fun _ => rfl, fun _ => rfl⟩ rfl rfl (by decide)
      (Runtime.idle_initial graph) rfl) _ _

/-- The main thread does it all. -/
def alone : List (Thread 0 × Bool × Bool) := List.replicate 15 (.main, true, false)

theorem single_run : ∃ s, (single.spawn 1 [0]).Steps .extraThread s ∧ s.Idle ∧
    Suspend.history s.log 0 = [.start, .finish false, .walk 1] ∧
    Suspend.history s.log 1 = [.delete] := by
  have hrun : ((single.spawn 1 [0]).runSchedule .extraThread alone).map (fun s =>
      ((s.main, (s.pc .main).searching, (s.pc .mpi).searching),
        Suspend.history s.log 0, Suspend.history s.log 1)) =
      some ((.prog, true, true), [.start, .finish false, .walk 1], [.delete]) := by decide
  obtain ⟨s, hschedule, hend⟩ := Option.map_eq_some_iff.mp hrun
  obtain ⟨hidle, hlog⟩ := Prod.mk.inj hend
  obtain ⟨hmain, hpcs⟩ := Prod.mk.inj hidle
  obtain ⟨hpcMain, hpcMpi⟩ := Prod.mk.inj hpcs
  obtain ⟨htask, hendTask⟩ := Prod.mk.inj hlog
  refine ⟨s, Kernels.steps_of_runSchedule hschedule, ⟨hmain, ?_⟩, htask, hendTask⟩
  intro i
  cases i with
  | worker j => rw [Fin.fin_one_eq_zero j]; exact hpcMain
  | mpi => exact hpcMpi

end Example

theorem deleted_once_iff_single : ∃ s, (Example.single.spawn 1 [0]).Steps .extraThread s ∧
    s.Idle ∧ (((∀ t ∈ Finset.Ico 0 1, s.DeletedOnce t) ∧ s.DeletedOnce 1) ↔
      (∀ t ∈ Finset.Ico 0 1, (Example.single.heap t).reused = false) ∧
      ∀ t ∈ Finset.Ico 0 1, Example.single.blocking t = true) := by
  obtain ⟨s, hsteps, hidle, -⟩ := Example.single_run
  exact ⟨s, hsteps, hidle, deleted_once_iff Example.ready_single rfl hsteps hidle⟩

/-- With `EXTRA_THREAD` the main thread deletes no task. -/
theorem not_deleted_extraThread : ∃ s, Ready (Finset.Ico 0 1) 1 [0] Example.single ∧
    (Example.single.heap 0).reused = false ∧
    (Example.single.spawn 1 [0]).Steps .extraThread s ∧ s.Idle ∧
    Suspend.history s.log 0 = [.start, .finish false, .walk 1] ∧ ¬ s.DeletedOnce 0 := by
  obtain ⟨s, hsteps, hidle, htask, -⟩ := Example.single_run
  refine ⟨s, Example.ready_single, rfl, hsteps, hidle, htask, ?_⟩
  unfold Kernels.DeletedOnce
  rw [htask]
  decide

end AceMesh.MpiStrategy
