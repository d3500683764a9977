import AceMesh.Closing
import AceMesh.RoundRun

/-!
# A constructed graph is ready to run

What `register_task` and `end_construct_dag` leave behind (`Book`, `ClosedBy`) is what a
round asks for (`Ready`): an acyclic graph whose counters are in-degrees, whose roots are
the tasks without predecessors, and in which every chain ends at the end task.
-/

open AceMesh.TaskDagGraph AceMesh.Runtime Relation

namespace AceMesh

variable {m : Nat}

section Closed

variable {lo : TaskId} {g : TaskDagGraph} (hb : Book lo g)
include hb

theorem Book.dag :
    Release.Dag (Finset.Ico lo g.fresh) (fun u => (g.endConstructDag.heap u).outs)
      g.fresh where
  acyclic := by
    have hlt : ∀ u v, TransGen (Release.Edge (Finset.Ico lo g.fresh)
        fun u => (g.endConstructDag.heap u).outs) u v → u < v := by
      intro u v huv
      have hone : ∀ x y, Release.Edge (Finset.Ico lo g.fresh)
          (fun u => (g.endConstructDag.heap u).outs) x y → x < y := by
        rintro x y ⟨hx, hy, hmem⟩
        obtain ⟨hxlo, hxhi⟩ := Finset.mem_Ico.mp hx
        have hy := Finset.mem_Ico.mp hy
        dsimp only at hmem
        rw [hb.endConstructDag_outs x hxlo hxhi] at hmem
        split at hmem
        · have := List.mem_singleton.mp hmem
          lia
        · exact (hb.edges.forward x hxlo hxhi y hmem).1
      induction huv with
      | single he => exact hone _ _ he
      | tail _ he ih => exact Nat.lt_trans ih (hone _ _ he)
    exact fun u hu => Nat.lt_irrefl u (hlt u u hu)
  outs_mem := fun u hu x hx => by
    obtain ⟨hlo, hhi⟩ := Finset.mem_Ico.mp hu
    rw [hb.endConstructDag_outs u hlo hhi] at hx
    split at hx
    · exact Or.inr (List.mem_singleton.mp hx)
    · have := hb.edges.forward u hlo hhi x hx
      exact Or.inl (Finset.mem_Ico.mpr ⟨by lia, this.2⟩)
  sink_of_last := fun u hu hlast => by
    obtain ⟨hlo, hhi⟩ := Finset.mem_Ico.mp hu
    rw [hb.endConstructDag_outs u hlo hhi] at hlast ⊢
    split
    · exact List.mem_singleton_self _
    · rename_i hne
      obtain ⟨x, hx⟩ := List.exists_mem_of_ne_nil _ hne
      have hfwd := hb.edges.forward u hlo hhi x hx
      rw [if_neg hne] at hlast
      exact absurd hx (hlast x (Finset.mem_Ico.mpr ⟨by lia, hfwd.2⟩))
  sink_notMem := by simp

theorem Book.mem_outs_closed {u t : TaskId} (hu : u ∈ Finset.Ico lo g.fresh) :
    t ∈ (g.endConstructDag.heap u).outs ↔
      t ∈ (g.heap u).outs ∨ (t = g.fresh ∧ (g.heap u).outs = []) := by
  obtain ⟨hlo, hhi⟩ := Finset.mem_Ico.mp hu
  rw [hb.endConstructDag_outs u hlo hhi]
  by_cases hnil : (g.heap u).outs = []
  · simp [hnil]
  · simp [hnil]

/-- No edge is listed twice, so the in-degree counts tasks. -/
theorem Book.inDegree_closed (t : TaskId) :
    inDegree (Finset.Ico lo g.fresh) g.endConstructDag.heap t =
      ({u ∈ Finset.Ico lo g.fresh |
        t ∈ (g.heap u).outs ∨ (t = g.fresh ∧ (g.heap u).outs = [])} : Finset TaskId).card := by
  rw [inDegree, Finset.card_filter]
  refine Finset.sum_congr rfl fun u hu => ?_
  have hnd : ((g.endConstructDag.heap u).outs).Nodup := (hb.closedBy).nodup u hu
  rw [hnd.count]
  simp only [hb.mem_outs_closed hu]

/-- Two heaps with the same edges, counters and kinds of objects. -/
structure SameGraph (h h' : Heap) : Prop where
  outs : ∀ t, (h' t).outs = (h t).outs
  isAceMesh : ∀ t, (h' t).isAceMesh = (h t).isAceMesh
  refCount : ∀ t, (h' t).refCount = (h t).refCount

theorem Book.ready {r : Runtime m} (hsame : SameGraph g.endConstructDag.heap r.heap)
    (hend : r.graph.endTask = some g.fresh)
    (hroots : r.graph.needSpawnTasks = g.needSpawnTasks)
    (haff : ∀ t ∈ Finset.Ico lo g.fresh,
      0 ≤ (r.heap t).affinityId ∧ (r.heap t).affinityId < (m + 1 : Nat))
    (hidle : r.Idle) (hmain : r.main = .prog) :
    Ready (Finset.Ico lo g.fresh) g.fresh r := by
  have houts : (fun t => (r.heap t).outs) = fun t => (g.endConstructDag.heap t).outs :=
    funext hsame.outs
  have hdegree : ∀ t, inDegree (Finset.Ico lo g.fresh) r.heap t =
      inDegree (Finset.Ico lo g.fresh) g.endConstructDag.heap t :=
    fun t => Finset.sum_congr rfl fun u _ => by rw [hsame.outs]
  constructor
  case runnable =>
    refine ⟨by rw [houts]; exact hb.dag, fun t ht => ?_, haff⟩
    obtain ⟨hlo, hhi⟩ := Finset.mem_Ico.mp ht
    rw [hsame.isAceMesh, hb.endConstructDag_heap, if_neg (show t ≠ g.fresh by lia)]
    have hkind := (hb.kind t hlo hhi).1
    split
    · exact hkind
    · exact hkind
  case endTask => exact hend
  case counts =>
    intro t ht
    obtain ⟨hlo, hhi⟩ := Finset.mem_Ico.mp ht
    have hne : t ≠ g.fresh := by lia
    rw [hsame.refCount, hdegree, hb.inDegree_closed, hb.endConstructDag_refCount t hhi,
      hb.edges.count t hlo hhi, predecessors]
    simp only [hne, false_and, or_false]
  case endCount =>
    rw [hsame.refCount, hdegree, hb.inDegree_closed, hb.endConstructDag_new]
    change ((g.endTasks.length : Nat) : Int) = _
    rw [← List.toFinset_card_of_nodup hb.edges.ends_nodup]
    congr 2
    ext u
    simp only [List.mem_toFinset, hb.edges.mem_ends, Finset.mem_filter, Finset.mem_Ico, true_and]
    refine and_congr_right fun hu => ?_
    have hno : g.fresh ∉ (g.heap u).outs := fun hmem => by
      have := (hb.edges.forward u hu.1 hu.2 _ hmem).2
      lia
    simp [hno]
  case roots_nodup => rw [hroots]; exact hb.roots_nodup
  case roots =>
    intro t
    rw [hroots, hb.mem_roots, hdegree, hb.inDegree_closed, Finset.card_eq_zero,
      Finset.filter_eq_empty_iff, Finset.mem_Ico]
    refine and_congr_right fun ht => ?_
    have hne : t ≠ g.fresh := by lia
    simp only [hne, false_and, or_false, Finset.mem_Ico, and_imp]
  case idle => exact hidle
  case main => exact hmain

end Closed

theorem Runtime.idle_initial (g : TaskDagGraph) : (Runtime.initial g : Runtime m).Idle :=
  ⟨fun _ => rfl, fun _ => Pc.resting_next _⟩

/-! ## Any interleaving -/

/-- One round of a graph, in any interleaving of any number of threads: bodies run in
order and at most once, no queue and no thread holds the end task, the main thread leaves the
loop when everything is done, and until then there is always something to do. -/
theorem round_correct {nodes : Finset TaskId} {e : TaskId} {r₀ r₁ r : Runtime m}
    (hready : Ready nodes e r₀) (hspawn : r₀.spawn = some r₁) (hsteps : r₁.Steps r)
    (hmain : r.main ≠ .prog) :
    InOrder nodes r₀.outs r.log ∧
    (∀ t, r.log.count (.start t) ≤ 1 ∧ (.start t ∈ r.log → t ∈ nodes)) ∧
    1 ≤ (r.heap e).refCount ∧ .start e ∉ r.log ∧
    (∀ i, e ∉ r.queue i ∧ (r.pc i).hand ≠ some e) ∧
    (r.main = .left e ∨ r.main = .returned e →
      (∀ t ∈ nodes, .finish t ∈ r.log) ∧ ∀ i, r.queue i = [] ∧ (r.pc i).hand = none) ∧
    (r.main = .test e ∨ r.main = .run e → 1 < (r.heap e).refCount →
      (∃ i, r.queue i ≠ []) ∨ ∃ i t, (r.pc i).hand = some t ∨ (r.pc i).Active r.heap t) := by
  have hin₁ := hready.inRound hspawn
  rcases hin₁.steps hsteps with ⟨hin, hshape⟩ | hafter
  · have houts : r.outs = r₀.outs :=
      ((hready.spawn_same hspawn).1.trans hshape).outs_fun
    have hstarted : ∀ t, .start t ∈ r.log → t ∈ nodes := fun t ht =>
      (hin.round.mem_of_starts (Nat.pos_iff_ne_zero.mp (List.count_pos_iff.mpr ht))).1
    have hsink := hin.round.runnable.dag.sink_notMem
    refine ⟨houts ▸ hin.round.order, fun t => ⟨hin.round.starts_le t, hstarted t⟩, ?_, ?_,
      fun i => ⟨fun he => ?_, fun he => ?_⟩, ?_, ?_⟩
    · have := hin.round.endCount
      omega
    · exact fun he => hsink (hstarted e he)
    · exact hsink (hin.round.mem_of_queue he)
    · exact hsink (hin.round.mem_of_hand he).1
    · intro hover
      have hend := hin.ended hover
      have hidle := hin.idle hover
      refine ⟨fun t ht => ?_, fun i => ⟨hidle.queue i, (hidle.resting i).hand⟩⟩
      have hfin := (hin.round.complete hend ht).2.1
      exact List.count_pos_iff.mp (by unfold finishes at hfin; omega)
    · intro hwait hlt
      have hroots : r.main.roots = [] := by rcases hwait with hw | hw <;> rw [hw] <;> rfl
      have hend : r.pending nodes e ≠ 0 := by
        have := hin.round.endCount
        omega
      exact (hin.round.exists_work hend).resolve_left fun hne => hne hroots
  · exact absurd hafter.main hmain


namespace Example

/-- Two tasks that read an address, and in a second loop one that writes it. -/
def reader : TaskSpec := ⟨⟨true, 5⟩, fun _ _ => [], [⟨8, .NORMAL, .IN, NEIGHBOR_NONE, .INOUT_NONE⟩]⟩

def writer : TaskSpec := ⟨⟨false, 5⟩, fun _ _ => [], [⟨8, .NORMAL, .OUT, NEIGHBOR_NONE, .INOUT_NONE⟩]⟩

def calls : List BuildCall :=
  [.beginSplitTask, .registerTask reader, .registerTask reader, .endSplitTask,
    .beginSplitTask, .registerTask writer, .endSplitTask]

def graph : TaskDagGraph := ((TaskDagGraph.init 2).buildAll calls).endConstructDag

/-- The main thread and one worker. -/
def runtime : Runtime 1 := Runtime.initial graph

theorem ready : Ready (Finset.Ico 0 3) 3 runtime :=
  ((blank_init 2).book.buildAll calls).ready ⟨fun _ => rfl, fun _ => rfl, fun _ => rfl⟩
    rfl rfl (by decide) (idle_initial graph) rfl

end Example

/-- Two threads take turns, the worker twice as fast, until the main thread leaves. -/
theorem round_correct_example : ∃ r₁ r : Runtime 1,
    Example.runtime.spawn = some r₁ ∧ r₁.Steps r ∧ r.main = .left 3 ∧ r.log.length = 9 ∧
    InOrder (Finset.Ico 0 3) Example.runtime.outs r.log ∧
    (∀ t, r.log.count (.start t) ≤ 1 ∧ (.start t ∈ r.log → t ∈ Finset.Ico 0 3)) ∧
    1 ≤ (r.heap 3).refCount ∧ .start 3 ∉ r.log ∧
    (∀ i, 3 ∉ r.queue i ∧ (r.pc i).hand ≠ some 3) ∧
    (r.main = .left 3 ∨ r.main = .returned 3 →
      (∀ t ∈ Finset.Ico 0 3, .finish t ∈ r.log) ∧ ∀ i, r.queue i = [] ∧ (r.pc i).hand = none) ∧
    (r.main = .test 3 ∨ r.main = .run 3 → 1 < (r.heap 3).refCount →
      (∃ i, r.queue i ≠ []) ∨ ∃ i t, (r.pc i).hand = some t ∨ (r.pc i).Active r.heap t) := by
  have hrun : ((Example.runtime.spawn.bind fun r => r.runSchedule
      (List.replicate 19 [(0, true), (1, true), (1, true)]).flatten).map
        fun r => (r.main, r.log.length)) = some (.left 3, 9) := by decide
  obtain ⟨r, hr, hend⟩ := Option.map_eq_some_iff.mp hrun
  obtain ⟨r₁, hspawn, hschedule⟩ := Option.bind_eq_some_iff.mp hr
  obtain ⟨hmain, hlog⟩ := Prod.mk.inj hend
  exact ⟨r₁, r, hspawn, steps_of_runSchedule hschedule, hmain, hlog,
    round_correct Example.ready hspawn (steps_of_runSchedule hschedule) (by simp [hmain])⟩

end AceMesh
