import AceMesh.MpiRun
import AceMesh.Launch

/-!
# Suspended tasks

While a graph is executed, with any mix of blocking tasks and others, a released task that is
not through is in one queue, in the list of roots or in one thread's hand. Its history is a
number of suspended runs, each with one re-queueing and no decrement, and the final run, which
decrements every successor once.
-/

namespace AceMesh.MpiStrategy

open Suspend (Act Stage)

variable {m : Nat}

/-- The thread has a released task in its hand: to be executed or pushed, being executed, or
with edges left to walk. -/
def Pc.Holds (h : Heap) (t : TaskId) : Pc → Prop
  | .hold u | .body u | .restore u | .test u => u = t
  | .loop u k => u = t ∧ k < (h t).outs.length
  | .push u k succ => (u = t ∧ k + 1 < (h t).outs.length) ∨ succ = t
  | .vert u => u = t ∧ (h t).verticalTask ≠ none
  | .ret _ v => v = some t
  | .next | .clear | .poll | .pop => False

namespace Kernels

/-- The edges out of a task. -/
abbrev outs (s : Kernels m) (t : TaskId) : List TaskId := (s.heap t).outs

/-- The task is in the place. -/
def At (s : Kernels m) (t : TaskId) : Place m → Prop
  | .root => t ∈ s.main.roots
  | .queue q => t ∈ s.queue q
  | .hand i => (s.pc i).Holds s.heap t

/-- The edges into a task that are left to walk. -/
def pending (nodes : Finset TaskId) (s : Kernels m) (t : TaskId) : Nat :=
  Release.pending nodes s.outs (fun u => (Suspend.walked s.log u).length) t

end Kernels

namespace Pc

theorem mem_view_of_holds {h : Heap} {p : Pc} {t : TaskId} (hp : p.Holds h t) (i : Thread m)
    (suspended : TaskId → Bool) : ∃ σ, (t, σ) ∈ p.view i suspended h := by
  cases p with
  | next => exact hp.elim
  | clear => exact hp.elim
  | poll => exact hp.elim
  | pop => exact hp.elim
  | hold u => cases hp; exact ⟨_, List.mem_cons_self⟩
  | body u => cases hp; exact ⟨_, List.mem_cons_self⟩
  | restore u => cases hp; exact ⟨_, List.mem_cons_self⟩
  | test u => cases hp; exact ⟨_, List.mem_cons_self⟩
  | loop u k =>
      obtain ⟨rfl, -⟩ := hp
      exact ⟨_, List.mem_cons_self⟩
  | push u k succ =>
      obtain ⟨rfl, -⟩ | rfl := hp
      · exact ⟨_, List.mem_cons_self⟩
      · exact ⟨_, List.mem_cons_of_mem _ List.mem_cons_self⟩
  | vert u =>
      obtain ⟨rfl, -⟩ := hp
      exact ⟨_, List.mem_cons_self⟩
  | ret u v =>
      obtain rfl : v = some t := hp
      exact ⟨.ready, by simp [view]⟩

theorem holds_of_mem_view {h : Heap} {p : Pc} {t : TaskId} {i : Thread m}
    {suspended : TaskId → Bool} {σ : Stage (Thread m)} (hmem : (t, σ) ∈ p.view i suspended h)
    (hleft : σ.done (h t).outs.length < (h t).outs.length) : p.Holds h t := by
  cases p with
  | next => simp [view] at hmem
  | clear => simp [view] at hmem
  | poll => simp [view] at hmem
  | pop => simp [view] at hmem
  | hold u => cases List.mem_singleton.mp hmem; exact rfl
  | body u => cases List.mem_singleton.mp hmem; exact rfl
  | restore u => cases List.mem_singleton.mp hmem; exact rfl
  | test u => cases List.mem_singleton.mp hmem; exact rfl
  | loop u k =>
      cases List.mem_singleton.mp hmem
      exact ⟨rfl, hleft⟩
  | push u k succ =>
      simp only [view, List.mem_cons, List.not_mem_nil, or_false, Prod.mk.injEq] at hmem
      obtain ⟨rfl, rfl⟩ | ⟨rfl, -⟩ := hmem
      · exact Or.inl ⟨rfl, hleft⟩
      · exact Or.inr rfl
  | vert u =>
      cases List.mem_singleton.mp hmem
      refine ⟨rfl, fun hnone => ?_⟩
      simp [Stage.done, Task.outs, hnone] at hleft
  | ret u v =>
      simp only [view, List.mem_append, List.mem_map, Prod.mk.injEq] at hmem
      obtain hmem | ⟨w, hw, rfl, -⟩ := hmem
      · split at hmem
        · cases hmem
        · cases List.mem_singleton.mp hmem
          exact absurd hleft (Nat.lt_irrefl _)
      · exact Option.mem_toList.mp hw

/-- A thread that has only to return holds nothing. -/
theorem not_holds_of_leftover {h : Heap} {p : Pc} {t u : TaskId} (hp : p.Leftover h t) :
    ¬ p.Holds h u := by
  intro hholds
  cases p with
  | loop w k =>
      obtain ⟨rfl, hlen, hnone⟩ := hp
      obtain ⟨rfl, hlt⟩ := hholds
      simp only [Task.outs, hnone, Option.toList_none, List.append_nil] at hlt
      omega
  | vert w =>
      obtain ⟨rfl, hnone⟩ := hp
      obtain ⟨rfl, hsome⟩ := hholds
      exact hsome hnone
  | ret w v =>
      obtain ⟨rfl, rfl⟩ := hp
      cases hholds
  | next => exact hp
  | clear => exact hp
  | poll => exact hp
  | pop => exact hp
  | hold w => exact hp
  | body w => exact hp
  | restore w => exact hp
  | test w => exact hp
  | push w k succ => exact hp

end Pc

namespace Tracks

variable {b : Strategy} {nodes : Finset TaskId} {e : TaskId} {h₀ : Heap}
  {blocking : TaskId → Bool} {old : Thread m → Bool} {s : Kernels m}
  {a : Suspend.State TaskId (Thread m)} (h : Tracks b nodes e h₀ blocking old s a)
include h

theorem walked_eq {t : TaskId} (ht : t ∈ nodes) : Suspend.walked s.log t =
    ((h₀ t).outs).take (a.done (fun t => (h₀ t).outs) t) := by
  rw [h.log]
  exact h.inv.walked_eq ht

theorem pending_eq (t : TaskId) :
    s.pending nodes t = a.pending nodes (fun t => (h₀ t).outs) t := by
  unfold Kernels.pending Suspend.State.pending Release.pending
  refine Finset.sum_congr rfl fun u hu => ?_
  have houts : s.outs u = (h₀ u).outs := h.shape.outs u
  dsimp only
  rw [h.walked_eq hu, houts, List.length_take]
  by_cases hle : a.done (fun t => (h₀ t).outs) u ≤ (h₀ u).outs.length
  · rw [Nat.min_eq_left hle]
  · rw [Nat.min_eq_right (by omega), List.drop_eq_nil_of_le le_rfl,
      List.drop_eq_nil_of_le (by omega)]

/-- The places, read off the runtime. -/
theorem at_iff {t : TaskId}
    (hleft : (a.stage t).done (h₀ t).outs.length < (h₀ t).outs.length) (place : Place m) :
    s.At t place ↔ ∃ σ, (t, σ) ∈ s.content b old place := by
  cases place with
  | root => simp [Kernels.At, Kernels.content]
  | queue q => simp [Kernels.At, Kernels.content]
  | hand i =>
      by_cases hold : old i = true
      · obtain ⟨u, -, hp⟩ := h.leftover i hold
        simp [Kernels.At, Kernels.content, hold, Pc.not_holds_of_leftover hp]
      · have hold : old i = false := by simpa using hold
        rw [Kernels.content_of_hand hold]
        refine ⟨fun hp => Pc.mem_view_of_holds hp i _, ?_⟩
        rintro ⟨σ, hσ⟩
        have hstage := h.placed.of_hand hold hσ
        refine Pc.holds_of_mem_view hσ ?_
        rw [h.shape.outs, ← hstage]
        exact hleft

/-- A released task with edges left to walk is in exactly one place. -/
theorem existsUnique_place {t : TaskId} (ht : t ∈ nodes) (hreleased : s.pending nodes t = 0)
    (hleft : Suspend.walked s.log t ≠ (h₀ t).outs) : ∃! place, s.At t place := by
  rw [h.pending_eq] at hreleased
  rw [h.walked_eq ht] at hleft
  have hdone : (a.stage t).done (h₀ t).outs.length < (h₀ t).outs.length := by
    by_contra hge
    exact hleft (List.take_of_length_le (Nat.not_lt.mp hge))
  have hplaced : (a.stage t).placed = true := by
    cases hstage : a.stage t with
    | waiting => exact absurd ⟨ht, hreleased⟩ ((h.inv.waiting_iff t).mp hstage)
    | gone i deleted =>
        rw [hstage] at hdone
        exact absurd hdone (Nat.lt_irrefl _)
    | ready => rfl
    | started i => rfl
    | stopped i suspended => rfl
    | walking i k => rfl
  have hunique := h.placed.shown.existsUnique_place hplaced
  simpa only [h.at_iff hdone] using hunique

end Tracks

/-- Whatever the bodies leave in their flags, in any of the builds and in any interleaving: a
released task that is not through is in exactly one place, and once in it; what has happened
to a task is a number of suspended runs, each re-queued once and without a decrement, and a
beginning of the final run, which decrements each successor once; a task starts after the
final runs of its predecessors; and when the main thread leaves its loop, every edge has been
walked. -/
theorem suspension_correct {b : Strategy} {nodes : Finset TaskId} {e : TaskId}
    {roots : List TaskId} {s₀ s : Kernels m} (hready : Ready nodes e roots s₀)
    (hsteps : (s₀.spawn e roots).Steps b s) :
    (∀ t ∈ nodes, s.pending nodes t = 0 → Suspend.walked s.log t ≠ s₀.outs t →
      ∃! place, s.At t place) ∧
    (∀ q, (s.queue q).Nodup) ∧ s.main.roots.Nodup ∧
    (∀ t ∈ nodes, ∃ n, Suspend.history s.log t <+:
      Suspend.suspendedRuns n ++ (Suspend.finalRun (s₀.outs t) ++ [.delete])) ∧
    (∀ t, .finish true ∈ Suspend.history s.log t → s₀.blocking t = true) ∧
    (∀ t ∈ nodes, s.pending nodes t ≠ 0 → (s.heap t).refCount = s.pending nodes t) ∧
    Suspend.InOrder nodes s₀.outs s.log ∧
    (s.main.past = true → ∀ t ∈ nodes, Suspend.walked s.log t = s₀.outs t) := by
  obtain ⟨old₀, a₀, hstart⟩ := hready.tracks b
  obtain ⟨old, a, h⟩ := hstart.steps hready.runs hsteps
  refine ⟨fun t ht hreleased hleft => h.existsUnique_place ht hreleased hleft, h.placed.nodup,
    h.placed.roots_nodup, fun t ht => ?_, h.suspends, fun t ht hwaits => ?_, ?_,
    fun hpast t ht => ?_⟩
  · rw [h.log]
    exact h.inv.history_begins ht
  · rw [h.pending_eq] at hwaits ⊢
    exact h.count t ht ((h.inv.waiting_iff t).mpr fun hand => hwaits hand.2)
  · rw [h.log]
    exact h.inv.order
  · rw [h.walked_eq ht]
    exact List.take_of_length_le (h.inv.done_of_sink hready.runs.dag (h.ended hpast) ht)

/-- What is ready for a round is ready in any of the builds. -/
theorem ready_of_round {nodes : Finset TaskId} {e : TaskId} {r : Runtime m}
    (h : AceMesh.Ready nodes e r) (blocking suspend : TaskId → Bool) :
    Ready nodes e r.graph.needSpawnTasks (Kernels.initial r.heap blocking suspend : Kernels m) where
  runs := ⟨h.runnable.dag, h.runnable.kind⟩
  counts := h.counts
  endCount := h.endCount
  roots_nodup := h.roots_nodup
  mem_roots := h.roots
  queue := fun _ => rfl
  pc := fun _ => Or.inl rfl
  main := rfl

namespace Example

/-- The first reader may block. -/
def initial : Kernels 1 :=
  Kernels.initial AceMesh.Example.runtime.heap (fun t => t == 0) fun _ => false

theorem ready : Ready (Finset.Ico 0 3) 3 [0, 1] initial :=
  ready_of_round AceMesh.Example.ready _ _

def worker : Thread 1 := .worker AceMesh.Example.worker

/-- The three threads take turns; the body of the blocking task leaves its flag set once. -/
def schedule : List (Thread 1 × Bool × Bool) :=
  (List.replicate 8 [(.main, true, false), (worker, true, false), (.mpi, true, true)]).flatten ++
    (List.replicate 16 [(.main, true, false), (worker, true, false), (.mpi, true, false)]).flatten

end Example

theorem suspension_correct_once : ∃ s : Kernels 1,
    (Example.initial.spawn 3 [0, 1]).Steps .extraThread s ∧ s.main = .prog ∧
    Suspend.history s.log 0 =
      [.start, .finish true, .requeue, .start, .finish false, .walk 2] ∧
    (∀ t ∈ Finset.Ico 0 3, s.pending (Finset.Ico 0 3) t = 0 →
      Suspend.walked s.log t ≠ Example.initial.outs t → ∃! place, s.At t place) ∧
    (∀ q, (s.queue q).Nodup) ∧ s.main.roots.Nodup ∧
    (∀ t ∈ Finset.Ico 0 3, ∃ n, Suspend.history s.log t <+: Suspend.suspendedRuns n ++
      (Suspend.finalRun (Example.initial.outs t) ++ [.delete])) ∧
    (∀ t, .finish true ∈ Suspend.history s.log t → Example.initial.blocking t = true) ∧
    (∀ t ∈ Finset.Ico 0 3, s.pending (Finset.Ico 0 3) t ≠ 0 →
      (s.heap t).refCount = s.pending (Finset.Ico 0 3) t) ∧
    Suspend.InOrder (Finset.Ico 0 3) Example.initial.outs s.log ∧
    (s.main.past = true → ∀ t ∈ Finset.Ico 0 3,
      Suspend.walked s.log t = Example.initial.outs t) := by
  have hrun : ((Example.initial.spawn 3 [0, 1]).runSchedule .extraThread Example.schedule).map
      (fun s => (s.main, Suspend.history s.log 0)) = some (.prog,
        [.start, .finish true, .requeue, .start, .finish false, .walk 2]) := by decide
  obtain ⟨s, hschedule, hend⟩ := Option.map_eq_some_iff.mp hrun
  obtain ⟨hmain, hhistory⟩ := Prod.mk.inj hend
  have hsteps := Kernels.steps_of_runSchedule hschedule
  exact ⟨s, hsteps, hmain, hhistory, suspension_correct Example.ready hsteps⟩

end AceMesh.MpiStrategy
