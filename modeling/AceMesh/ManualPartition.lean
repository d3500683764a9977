import AceMesh.PartEnds

/-!
# Parts named by the program

The `SUPPORT_PARTITION` build: the program numbers the parts with `acemesh_setsepid`, and the
task generated next takes the number. `register_task` keeps the tasks without predecessors by
part in `sep_data`; `end_construct_dag_separation` makes an end task for the part of every
task that leads nowhere. Nothing compares the two sets of parts, and nothing keeps an edge
from leading from one part to another.
-/

namespace AceMesh

open TaskDagGraph Relation

variable {m : Nat}

namespace SupportPartition

/-! ## The build -/

/-- The graph with `_sepid`, the part ids of the tasks and `sep_data`. -/
structure Program where
  graph : TaskDagGraph
  sepid : Int
  partId : TaskId → Int
  sepData : List (Int × List TaskId)

/-- `register_task`, which also enters a task without predecessors in `sep_data`. -/
def registerTask (p : Program) (t : TaskId) (getNeighbor : Nat → Addr → List Addr)
    (addrs : List AddrTuple) : Program :=
  let g := p.graph.addEndTask t
  let a := g.myAffinity.getAffinityId
  let g := { g with heap := g.heap.setAffinityId t a.1, myAffinity := a.2 }
  let s := addrs.foldl (registerTuple t getNeighbor) (g, 0)
  if s.2 = 0 then
    { p with
      graph := { s.1 with needSpawnTasks := s.1.needSpawnTasks ++ [t] }
      sepData := Buckets.push (p.partId t) t p.sepData }
  else { p with graph := s.1 }

/-- `acemesh_task_generator`. -/
def taskGenerator (p : Program) (spec : TaskSpec) : Program :=
  let t := p.graph.fresh
  registerTask
    { p with
      graph := p.graph.alloc (Task.newAceMesh spec.junk)
      partId := Function.update p.partId t p.sepid }
    t spec.getNeighbor spec.addrs

inductive Call
  | build (c : BuildCall)
  | setsepid (id : Int)

def Program.call (p : Program) : Call → Program
  | .build (.registerTask spec) => taskGenerator p spec
  | .build .beginSplitTask => { p with graph := p.graph.beginSplitTask }
  | .build (.beginSplitTaskNamed n) => { p with graph := p.graph.beginSplitTaskNamed n }
  | .build .endSplitTask => { p with graph := p.graph.endSplitTask }
  | .setsepid id => { p with sepid := id }

def Program.run (p : Program) (calls : List Call) : Program := calls.foldl Program.call p

/-- `end_construct_dag_separation`, with the end tasks in the order of the iteration. -/
def endConstructDagSeparation (p : Program) (order : List TaskId) :
    TaskDagGraph × (Int → Option TaskId) :=
  order.foldl (fun s t => hangEnd (p.partId t) t s) (p.graph, fun _ => none)

/-- `spawn_and_wait_with_separation` up to the loop, called by the main thread of `r`. -/
def separation (p : Program) (order : List TaskId) (r : Runtime m) :
    Separation m :=
  let s := endConstructDagSeparation p order
  ⟨{ r with graph := s.1, log := [] }, p.sepData, s.2⟩

/-! ## The default build, with the roots by part -/

theorem taskGenerator_eq (p : Program) (spec : TaskSpec) :
    taskGenerator p spec =
      { p with
        graph := p.graph.taskGenerator spec
        partId := Function.update p.partId p.graph.fresh p.sepid
        sepData :=
          if attempts p.graph.addrTask spec.accesses = [] then
            Buckets.push p.sepid p.graph.fresh p.sepData
          else p.sepData } := by
  let start := (p.graph.alloc (Task.newAceMesh spec.junk)).registerStart p.graph.fresh
  have hfold := registerTuples_eq (p.graph.alloc (Task.newAceMesh spec.junk)) p.graph.fresh
    spec.getNeighbor spec.addrs
  have hgraph : p.graph.taskGenerator spec =
      (let s := spec.addrs.foldl (registerTuple p.graph.fresh spec.getNeighbor) (start, 0)
       if s.2 = 0 then { s.1 with needSpawnTasks := s.1.needSpawnTasks ++ [p.graph.fresh] }
       else s.1) := rfl
  have hall : taskGenerator p spec =
      (let s := spec.addrs.foldl (registerTuple p.graph.fresh spec.getNeighbor) (start, 0)
       if s.2 = 0 then
        { p with
          graph := { s.1 with needSpawnTasks := s.1.needSpawnTasks ++ [p.graph.fresh] }
          partId := Function.update p.partId p.graph.fresh p.sepid
          sepData := Buckets.push
            (Function.update p.partId p.graph.fresh p.sepid p.graph.fresh) p.graph.fresh
            p.sepData }
       else
        { p with
          graph := s.1
          partId := Function.update p.partId p.graph.fresh p.sepid }) := rfl
  have hcount : (spec.addrs.foldl (registerTuple p.graph.fresh spec.getNeighbor) (start, 0)).2 =
      (attempts p.graph.addrTask spec.accesses).length := by rw [hfold]; rfl
  rw [hall, hgraph]
  simp only [hcount, List.length_eq_zero_iff, Function.update_self]
  split <;> rfl

/-- What holds of the graph under construction and of `sep_data`. -/
structure Build (lo : TaskId) (p : Program) : Prop where
  book : Book lo p.graph
  sepData : Buckets p.partId p.graph.needSpawnTasks p.sepData

theorem Build.blank {p : Program} (hg : Blank p.graph) (hdata : p.sepData = []) :
    Build p.graph.fresh p where
  book := hg.book
  sepData := by
    rw [hg.needSpawnTasks, hdata]
    exact Buckets.nil p.partId

theorem Build.call {lo : TaskId} {p : Program} (h : Build lo p) (c : Call) :
    Build lo (p.call c) := by
  cases c with
  | build c =>
      cases c with
      | registerTask spec =>
          change Build lo (taskGenerator p spec)
          rw [taskGenerator_eq]
          refine ⟨h.book.taskGenerator spec, ?_⟩
          have hold : Buckets (Function.update p.partId p.graph.fresh p.sepid)
              p.graph.needSpawnTasks p.sepData := by
            refine h.sepData.congr fun t ht => Function.update_of_ne ?_ ..
            have := ((h.book.mem_roots t).mp ht).1.2
            lia
          change Buckets (Function.update p.partId p.graph.fresh p.sepid)
            (p.graph.taskGenerator spec).needSpawnTasks _
          rw [taskGenerator_roots]
          split
          · have hnew := hold.pushed p.graph.fresh
            rw [Function.update_self] at hnew
            exact hnew
          · exact hold
      | beginSplitTask => exact ⟨h.book.beginSplitTask, h.sepData⟩
      | beginSplitTaskNamed n => exact ⟨h.book.beginSplitTaskNamed n, h.sepData⟩
      | endSplitTask =>
          refine ⟨h.book.endSplitTask, ?_⟩
          change Buckets p.partId p.graph.endSplitTask.needSpawnTasks p.sepData
          rw [endSplitTask_eq]
          exact h.sepData
  | setsepid id => exact ⟨h.book, h.sepData⟩

theorem Build.run {lo : TaskId} {p : Program} (h : Build lo p) (calls : List Call) :
    Build lo (p.run calls) := by
  induction calls generalizing p with
  | nil => exact h
  | cons c calls ih => exact ih (h.call c)

/-! ## Which parts are awaited -/

section Closed

variable {lo : TaskId} {p : Program} (h : Build lo p) {order : List TaskId}
  (horder : order.Perm p.graph.endTasks)
include h horder

theorem Build.hung :
    Hung p.graph p.partId order (endConstructDagSeparation p order) := by
  have hnd : ([] ++ order).Nodup := horder.nodup_iff.mpr h.book.edges.ends_nodup
  refine (Hung.start p.graph p.partId).hangAll hnd fun t ht => ?_
  exact ((h.book.edges.mem_ends t).mp (horder.mem_iff.mp ht)).1.2

/-- Every part in `sep_data` has an end task if and only if every task without predecessors
shares its part with a task that leads nowhere. -/
theorem Build.found_iff :
    (∀ id ∈ p.sepData.map (·.1), ∃ e, (endConstructDagSeparation p order).2 id = some e) ↔
      ∀ t ∈ p.graph.needSpawnTasks, ∃ u ∈ p.graph.endTasks, p.partId u = p.partId t := by
  have hfound : ∀ id, (∃ e, (endConstructDagSeparation p order).2 id = some e) ↔
      ∃ u ∈ p.graph.endTasks, p.partId u = id := by
    intro id
    rw [← Option.ne_none_iff_exists', ne_eq, (h.hung horder).used]
    push Not
    simp only [horder.mem_iff]
  simp only [hfound, h.sepData.mem_keys]
  constructor
  · exact fun hall t ht => hall _ ⟨t, ht, rfl⟩
  · rintro hall id ⟨t, ht, rfl⟩
    exact hall t ht

end Closed

/-- `spawn_and_wait_with_separation` in the `SUPPORT_PARTITION` build, for every graph and
every numbering of the parts. It finds an end task for every part if and only if every root
shares its part with a task that leads nowhere. If moreover the parts are in turn, it
executes every task exactly once, in any interleaving, before it returns. What `InTurn` asks of
tasks that are carried over is not needed where the main thread is the only one. -/
theorem manual_partition_exact {p₀ : Program} (hblank : Blank p₀.graph)
    (hdata : p₀.sepData = []) (calls : List Call) {order : List TaskId}
    (horder : order.Perm (p₀.run calls).graph.endTasks) {r : Runtime m}
    (hgraph : r.graph = (p₀.run calls).graph) (hidle : r.Idle)
    (hold : ∀ i t, (r.pc i).object = some t → t < p₀.graph.fresh) (hmain : r.main = .prog)
    (hpc : r.pc 0 = .next)
    (haffinity : ∀ t ∈ Finset.Ico p₀.graph.fresh (p₀.run calls).graph.fresh,
      0 ≤ (r.heap t).affinityId ∧ (r.heap t).affinityId < (m + 1 : Nat)) :
    let p := p₀.run calls
    let tasks := Finset.Ico p₀.graph.fresh p.graph.fresh
    let s₀ := separation p order r
    ((∀ id ∈ s₀.parts, ∃ e, s₀.sepEndTasks id = some e) ↔
      ∀ t ∈ p.graph.needSpawnTasks, ∃ u ∈ p.graph.endTasks, p.partId u = p.partId t) ∧
    (Release.InTurn tasks r.outs p.partId (Carried tasks r.heap) →
      ∃ s₁, s₀.nextPart = some s₁ ∧ ∀ s, s₁.Steps s → RunsAll tasks s) := by
  have hb : Build p₀.graph.fresh (p₀.run calls) := (Build.blank hblank hdata).run calls
  have hs := hb.hung horder
  refine ⟨hb.found_iff horder, fun hturn => ?_⟩
  have hheap : r.heap = (p₀.run calls).graph.heap := congrArg TaskDagGraph.heap hgraph
  refine separation_correct (hs.ready hb.book horder ?_ hb.sepData hgraph hidle hold hmain hpc)
    (hs.inTurn hb.book horder ?_)
  · intro t ht
    rw [hs.affinityId (Finset.mem_Ico.mp ht).2, ← hheap]
    exact haffinity t ht
  · rw [← hheap]
    exact hturn

/-! ## Two parts -/

namespace Example

def writer (a : Addr) : BuildCall :=
  .registerTask ⟨⟨false, 0⟩, fun _ _ => [], [⟨a, .NORMAL, .OUT, NEIGHBOR_NONE, .INOUT_NONE⟩]⟩

def reader (a : Addr) : BuildCall :=
  .registerTask ⟨⟨false, 0⟩, fun _ _ => [], [⟨a, .NORMAL, .IN, NEIGHBOR_NONE, .INOUT_NONE⟩]⟩

/-- Two addresses are written in parts 1 and 2, and read in parts `id` and 2. -/
def calls (id : Int) : List Call :=
  [.build .beginSplitTask, .setsepid 1, .build (writer 8), .setsepid 2, .build (writer 16),
    .build .endSplitTask, .build .beginSplitTask, .setsepid id, .build (reader 8), .setsepid 2,
    .build (reader 16), .build .endSplitTask]

def blank : Program := ⟨TaskDagGraph.init 2, 0, fun _ => 0, []⟩

def program (id : Int) : Program := blank.run (calls id)

def start (id : Int) : Separation 1 :=
  separation (program id) (program id).graph.endTasks
    (Runtime.initial (program id).graph)

end Example

/-- With no edge from part to part, the main thread and a worker that is twice as fast run
both parts to the end. -/
theorem manual_partition_exact_closed : ∃ s₁ s : Separation 1,
    (Example.start 1).nextPart = some s₁ ∧ s₁.Steps s ∧ s.runtime.main = .prog ∧
    s.runtime.log.length = 12 ∧ RunsAll (Finset.Ico 0 4) s ∧
    ∀ id ∈ (Example.start 1).parts, ∃ e, (Example.start 1).sepEndTasks id = some e := by
  have hready : ∀ i t, ((Runtime.initial (Example.program 1).graph : Runtime 1).pc i).object =
      some t → t < 0 := by
    intro i t ht
    cases ht
  obtain ⟨hfound, hruns⟩ := @manual_partition_exact 1 Example.blank (blank_init 2) rfl
    (Example.calls 1) _ (List.Perm.refl _)
    (Runtime.initial (Example.program 1).graph) rfl (Runtime.idle_initial _) hready rfl rfl
    (by decide)
  have hclosed : ∀ u ∈ Finset.Ico 0 4, ∀ v ∈ Finset.Ico 0 4,
      v ∈ ((Example.program 1).graph.heap u).outs →
        (Example.program 1).partId u = (Example.program 1).partId v := by decide
  have hbook : Book 0 (Example.program 1).graph :=
    ((Build.blank (p := Example.blank) (blank_init 2) rfl).run (Example.calls 1)).book
  obtain ⟨s₁, hs₁, hall⟩ := hruns
    (Release.inTurn_of_closed hbook.acyclic (fun u v huv => hclosed u huv.1 v huv.2.1 huv.2.2) _)
  have hrun : (((Example.start 1).nextPart.bind fun s => s.runSchedule
      (List.replicate 29 [(1, true), (1, true), (0, true)]).flatten).map
        fun s => (s.runtime.main, s.runtime.log.length)) = some (.prog, 12) := by decide
  obtain ⟨s, hs, hend⟩ := Option.map_eq_some_iff.mp hrun
  obtain ⟨s₁', hs₁', hschedule⟩ := Option.bind_eq_some_iff.mp hs
  cases Option.some.inj (hs₁.symm.trans hs₁')
  obtain ⟨hmain, hlog⟩ := Prod.mk.inj hend
  have hsteps := Separation.steps_of_runSchedule hschedule
  exact ⟨s₁, s, hs₁, hsteps, hmain, hlog, hall s hsteps, hfound.mpr (by decide)⟩

/-- The task that reads in part 2 what part 1 has written leaves part 1 without an end task,
and the loop dereferences the `NULL` that it finds for part 1. -/
theorem cross_part_edge_finds_null :
    (Example.start 2).parts = [1, 2] ∧ (Example.start 2).sepEndTasks 1 = none ∧
    (Example.start 2).nextPart.isNone = true ∧
    ¬ ∀ id ∈ (Example.start 2).parts, ∃ e, (Example.start 2).sepEndTasks id = some e := by
  have hnone : (Example.start 2).parts = [1, 2] ∧ (Example.start 2).sepEndTasks 1 = none ∧
      (Example.start 2).nextPart.isNone = true := by decide
  refine ⟨hnone.1, hnone.2.1, hnone.2.2, fun hall => ?_⟩
  obtain ⟨e, he⟩ := hall 1 (by rw [hnone.1]; exact List.mem_cons_self)
  rw [hnone.2.1] at he
  cases he

end SupportPartition

end AceMesh
