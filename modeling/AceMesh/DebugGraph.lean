import AceMesh.Conflict
import AceMesh.GraphCheck
import AceMesh.LoopNames
import AceMesh.Parallel

/-!
# Every graph passes the check

`task_dag_graph` in the `DEBUG_GRAPH` build, which merges tuples (`MERGE_SAME_ADDR`) and warns
about conflicts within a loop: the loops are counted by `dag_graph_check`, a task gets the
numbers of its loop and of itself, and `end_construct_dag` checks the graph, with or without
writing it to `loop_dependence.info`.

Neither merging nor the clearing of readers after a warning touches an edge, so the counters of
the tasks are in-degrees (`Book`), edges lead to newer tasks, and the check passes
(`check_graph_passes`).

A program runs a graph as it is built or runs a stored one, which is not checked. What the
threads leave behind of the objects is any heap: objects that are made later are new.
-/

open AceMesh.TaskDagGraph AceMesh.MergeSameAddr Relation

namespace AceMesh.GraphCheck

structure DebugGraph where
  graph : TaskDagGraph
  graphCheck : DagGraphCheck
  gPrintGraph : Bool
  taskNums : Nat
  debug : TaskId → DebugFields
  /-- The contents of `loop_dependence.info`. -/
  out : String

namespace DebugGraph

def start (threadNum : Nat) (debug : TaskId → DebugFields) : DebugGraph where
  graph := TaskDagGraph.init threadNum
  graphCheck := ⟨[], 0, 0⟩
  gPrintGraph := false
  taskNums := 0
  debug := debug
  out := ""

/-! ## The calls -/

/-- `begin_split_task`, with the name that the unnamed loop gets. -/
def beginSplitTask (d : DebugGraph) (loopInfo : Option String) (scheNumThreads : Nat) :
    DebugGraph :=
  { d with
    graph := d.graph.beginSplitTaskNamed scheNumThreads
    graphCheck := d.graphCheck.addLoopInfo (loopInfo.getD "loop_no_name") }

/-- `acemesh_task_generator`: the constructor unsets the counter. -/
def registerTask (d : DebugGraph) (spec : TaskSpec) : DebugGraph :=
  { d with
    graph := d.graph.taskGenerator spec
    graphCheck := d.graphCheck.setTaskLoopId.2
    taskNums := d.taskNums + 1
    debug := Function.update d.debug d.graph.fresh
      { isJoint := false
        refCountForCheck := -1
        loopId := d.graphCheck.setTaskLoopId.1.1
        taskId := d.graphCheck.setTaskLoopId.1.2 } }

def endSplitTask {layout : Layout} (d : DebugGraph) (sort : StdSort layout) : DebugGraph :=
  { d with
    graph := (Conflict.endSplitTask sort (d.graphCheck.loopInfos.getLastD "") d.graph).graph }

/-- `print_id_loop_info_table`. -/
def printIdLoopInfoTable (loopInfos : List String) : String :=
  String.join ((loopInfos.zipIdx 1).map fun p => toString p.2 ++ ":" ++ p.1 ++ "\n")

/-- `check_graph` and `check_graph(print_graph)`, which ends in `print_loop_depedence`. -/
def checkGraph (d : DebugGraph) : Except Failure DebugGraph :=
  if d.gPrintGraph then
    (checkGraphBfs d.graph.heap d.debug d.graph.needSpawnTasks d.taskNums true).map fun r =>
      { d with
        debug := r.2.debug
        out := d.out ++ printIdLoopInfoTable d.graphCheck.loopInfos ++ r.2.out
        graphCheck := d.graphCheck.clear
        gPrintGraph := false }
  else
    (checkGraphBfs d.graph.heap d.debug d.graph.needSpawnTasks d.taskNums false).map fun r =>
      { d with debug := r.2.debug, out := d.out ++ r.2.out }

/-- The graph with its `end_task`, which is an `aceMesh_task` here. Nothing sets the numbers of
the `end_task`. -/
def close (d : DebugGraph) (junk : Junk) : DebugGraph :=
  let endTask := d.graph.fresh
  let g := { d.graph.alloc (Task.newAceMesh junk) with endTask := some endTask }
  { d with
    graph := { g with heap := g.endTasks.foldl (fun h t => h.addEndSuccessor t endTask) g.heap }
    debug := Function.update d.debug endTask
      { d.debug endTask with isJoint := true, refCountForCheck := -1 } }

def endConstructDag (d : DebugGraph) (junk : Junk) : Except Failure DebugGraph :=
  (d.close junk).checkGraph

/-- `reset_task_graph`, after a run that has left `heap` behind. -/
def resetTaskGraph (d : DebugGraph) (heap : Heap) : DebugGraph :=
  { d with graph := { d.graph.resetTaskGraph with heap := heap }, taskNums := 0 }

/-- A loop: `begin_split_task`, the registrations, `end_split_task`. -/
structure Loop (layout : Layout) where
  loopInfo : Option String
  scheNumThreads : Nat
  tasks : List TaskSpec
  sort : StdSort layout

/-- What `spawn_and_wait` runs, with what the threads leave behind: the graph that the loops
have built, or a stored one. -/
inductive Ending
  | built (printGraph : Bool) (junk : Junk) (heap : Heap)
  | stored (printGraph : Bool) (heap : Heap)

/-- Some loops and a `spawn_and_wait`. -/
structure Round (layout : Layout) where
  loops : List (Loop layout)
  ending : Ending

variable {layout : Layout}

def loop (d : DebugGraph) (l : Loop layout) : DebugGraph :=
  (l.tasks.foldl registerTask (d.beginSplitTask l.loopInfo l.scheNumThreads)).endSplitTask l.sort

def setPrintGraph (d : DebugGraph) (printGraph : Bool) : DebugGraph :=
  if printGraph then { d with gPrintGraph := true } else d

def spawnAndWait (d : DebugGraph) : Ending → Except Failure DebugGraph
  | .built printGraph junk heap =>
    (endConstructDag (d.setPrintGraph printGraph) junk).map fun d => resetTaskGraph d heap
  | .stored printGraph heap => .ok (resetTaskGraph (d.setPrintGraph printGraph) heap)

def round (d : DebugGraph) (r : Round layout) : Except Failure DebugGraph :=
  spawnAndWait (r.loops.foldl loop d) r.ending

def run (d : DebugGraph) (rounds : List (Round layout)) : Except Failure DebugGraph :=
  rounds.foldlM round d

end DebugGraph

/-! ## The closed graph -/

section Closed

variable {lo : TaskId} {d : DebugGraph} (hb : Book lo d.graph) (junk : Junk)
include hb

/-- The `end_task` is an object of another class than the `empty_task` of the other builds, whose
constructor leaves two fields as it finds them; nothing else is different. -/
theorem close_heap (u : TaskId) : (d.close junk).graph.heap u =
    if u = d.graph.fresh then
      { d.graph.endConstructDag.heap u with
        isAceMesh := true
        reused := junk.reused
        backupRef := junk.backupRef }
    else d.graph.endConstructDag.heap u := by
  have hnot : d.graph.fresh ∉ d.graph.endTasks := by
    intro hmem
    have hrange := ((hb.edges.mem_ends _).mp hmem).1
    exact Nat.lt_irrefl _ hrange.2
  have halloc : ∀ o u, u ≠ d.graph.fresh → (d.graph.alloc o).heap u = d.graph.heap u :=
    fun o u hu => Heap.modify_of_ne d.graph.heap hu fun _ => o
  have hnew : ∀ o, (d.graph.alloc o).heap d.graph.fresh = o :=
    fun o => Heap.modify_self d.graph.heap d.graph.fresh fun _ => o
  rw [hb.endConstructDag_heap]
  change (d.graph.endTasks.foldl (fun h t => h.addEndSuccessor t d.graph.fresh)
    (d.graph.alloc (Task.newAceMesh junk)).heap) u = _
  rw [foldl_addEndSuccessor _ hb.edges.ends_nodup hnot]
  by_cases hu : u = d.graph.fresh
  · subst hu
    rw [if_neg hnot, if_pos rfl, if_neg hnot, if_pos rfl, if_pos rfl, hnew]
    simp [Task.newEmpty, Task.newAceMesh]
  · rw [if_neg hu, if_neg hu, if_neg hu, halloc _ u hu]

theorem close_outs (u : TaskId) : ((d.close junk).graph.heap u).outs =
    (d.graph.endConstructDag.heap u).outs := by
  rw [close_heap hb]
  split <;> rfl

theorem close_refCount (u : TaskId) : ((d.close junk).graph.heap u).refCount =
    (d.graph.endConstructDag.heap u).refCount := by
  rw [close_heap hb]
  split <;> rfl

theorem close_outs_of_lt {t : TaskId} (hlo : lo ≤ t) (hhi : t < d.graph.fresh) :
    ((d.close junk).graph.heap t).outs =
      if (d.graph.heap t).outs = [] then [d.graph.fresh] else (d.graph.heap t).outs := by
  rw [close_outs hb, hb.endConstructDag_outs t hlo hhi]

theorem close_outs_end : ((d.close junk).graph.heap d.graph.fresh).outs = [] := by
  rw [close_outs hb, hb.endConstructDag_new]
  rfl

/-- The edges of the closed graph lead to newer tasks. -/
theorem close_forward {t u : TaskId} (hlo : lo ≤ t) (hhi : t < d.graph.fresh)
    (hu : u ∈ ((d.close junk).graph.heap t).outs) : t < u ∧ u ≤ d.graph.fresh := by
  rw [close_outs_of_lt hb junk hlo hhi] at hu
  split at hu
  · rw [List.mem_singleton.mp hu]
    exact ⟨hhi, Nat.le_refl _⟩
  · have hforward := hb.edges.forward t hlo hhi u hu
    exact ⟨hforward.1, Nat.le_of_lt hforward.2⟩

/-- Counters are in-degrees, the counter of the `end_task` among them. -/
theorem close_count {t : TaskId} (hlo : lo ≤ t) (hhi : t ≤ d.graph.fresh) :
    ((d.close junk).graph.heap t).refCount =
      Kahn.into (Finset.Ico lo (d.graph.fresh + 1)) (outsOf (d.close junk).graph.heap) t := by
  have hready : Ready (Finset.Ico lo d.graph.fresh) d.graph.fresh
      (Runtime.initial (d.graph.endConstructDag.assignAffinity fun _ => 0) : Runtime 0) :=
    hb.ready ⟨fun _ => rfl, fun _ => rfl, fun _ => rfl⟩ rfl rfl
      (fun _ _ => ⟨Int.le_refl 0, Int.one_pos⟩) (Runtime.idle_initial _) rfl
  have hinto : Kahn.into (Finset.Ico lo (d.graph.fresh + 1)) (outsOf (d.close junk).graph.heap) t =
      inDegree (Finset.Ico lo d.graph.fresh) d.graph.endConstructDag.heap t := by
    have hrange : Finset.Ico lo (d.graph.fresh + 1) =
        insert d.graph.fresh (Finset.Ico lo d.graph.fresh) := by
      ext u
      have hle := hb.lo_le
      simp only [Finset.mem_insert, Finset.mem_Ico]
      lia
    rw [hrange, Kahn.into_insert (by simp), outsOf, close_outs_end hb junk, List.count_nil,
      Nat.add_zero]
    exact Finset.sum_congr rfl fun u _ => congrArg (List.count t) (close_outs hb junk u)
  rw [hinto, close_refCount hb]
  obtain hlt | rfl := Nat.lt_or_eq_of_le hhi
  · exact hready.counts t (Finset.mem_Ico.mpr ⟨hlo, hlt⟩)
  · exact hready.endCount

/-- The closed graph is one that `check_graph_bfs` expects. -/
theorem checkable (hbase : lo < d.graph.fresh) (hnums : d.taskNums = d.graph.fresh - lo)
    (hunset : ∀ t, lo ≤ t → t < d.graph.fresh → (d.debug t).refCountForCheck = -1) :
    Checkable (d.close junk).graph.heap (d.close junk).debug
      (Finset.Ico lo (d.graph.fresh + 1)) d.graph.fresh d.graph.needSpawnTasks d.taskNums := by
  have hmem : ∀ {t}, t ∈ Finset.Ico lo (d.graph.fresh + 1) →
      lo ≤ t ∧ (t < d.graph.fresh ∨ t = d.graph.fresh) := by
    intro t ht
    obtain ⟨hlo, hhi⟩ := Finset.mem_Ico.mp ht
    exact ⟨hlo, Nat.lt_succ_iff_lt_or_eq.mp hhi⟩
  -- the newest task has no successor in the graph
  have hlast : d.graph.fresh ∈ ((d.close junk).graph.heap (d.graph.fresh - 1)).outs := by
    rw [close_outs_of_lt hb junk (by lia) (by lia), if_pos]
    · exact List.mem_singleton_self _
    · apply List.eq_nil_iff_forall_not_mem.mpr
      intro u hu
      have hforward := hb.edges.forward (d.graph.fresh - 1) (by lia) (by lia) u hu
      lia
  constructor
  case closed =>
    intro t ht u hu
    obtain ⟨hlo, hlt | rfl⟩ := hmem ht
    · have hforward := close_forward hb junk hlo hlt hu
      exact Finset.mem_Ico.mpr (by lia)
    · rw [close_outs_end hb] at hu
      cases hu
  case refCount =>
    intro t ht
    obtain ⟨hlo, hhi⟩ := Finset.mem_Ico.mp ht
    exact close_count hb junk hlo (Nat.le_of_lt_succ hhi)
  case start_nodup => exact hb.roots_nodup
  case mem_start =>
    intro t
    rw [hb.mem_roots]
    constructor
    · rintro ⟨⟨hlo, hhi⟩, hno⟩
      refine ⟨Finset.mem_Ico.mpr ⟨hlo, Nat.lt_succ_of_lt hhi⟩, fun u hu hedge => ?_⟩
      obtain ⟨hulo, hlt | rfl⟩ := hmem hu
      · rw [close_outs_of_lt hb junk hulo hlt] at hedge
        split at hedge
        · exact absurd (List.mem_singleton.mp hedge) (Nat.ne_of_lt hhi)
        · exact hno u hulo hlt hedge
      · rw [close_outs_end hb] at hedge
        cases hedge
    · rintro ⟨ht, hno⟩
      obtain ⟨hlo, hlt | rfl⟩ := hmem ht
      · refine ⟨⟨hlo, hlt⟩, fun u hulo huhi hedge => ?_⟩
        apply hno u (Finset.mem_Ico.mpr ⟨hulo, Nat.lt_succ_of_lt huhi⟩)
        rw [close_outs_of_lt hb junk hulo huhi, if_neg (List.ne_nil_of_mem hedge)]
        exact hedge
      · exact absurd hlast (hno _ (Finset.mem_Ico.mpr (by lia)))
  case unset =>
    intro t ht
    obtain ⟨hlo, hlt | rfl⟩ := hmem ht
    · change (Function.update d.debug d.graph.fresh _ t).refCountForCheck = -1
      rw [Function.update_of_ne (Nat.ne_of_lt hlt)]
      exact hunset t hlo hlt
    · change (Function.update d.debug d.graph.fresh _ d.graph.fresh).refCountForCheck = -1
      rw [Function.update_self]
  case end_mem => exact Finset.mem_Ico.mpr ⟨hb.lo_le, Nat.lt_succ_self _⟩
  case outs_end =>
    intro t ht
    obtain ⟨hlo, hlt | rfl⟩ := hmem ht
    · rw [close_outs_of_lt hb junk hlo hlt]
      refine iff_of_false ?_ (Nat.ne_of_lt hlt)
      split
      · exact List.cons_ne_nil _ _
      · assumption
    · exact iff_of_true (close_outs_end hb junk) rfl
  case before_end => exact ⟨_, Finset.mem_Ico.mpr (by lia), hlast⟩
  case taskNums_pos => lia
  case card =>
    rw [Nat.card_Ico, hnums]
    lia

theorem acyclic : Acyclic (d.close junk).graph.heap (Finset.Ico lo (d.graph.fresh + 1)) := by
  have hone : ∀ u v, Release.Edge (Finset.Ico lo (d.graph.fresh + 1))
      (outsOf (d.close junk).graph.heap) u v → u < v := by
    rintro u v ⟨hu, -, hmem⟩
    obtain ⟨hlo, hhi⟩ := Finset.mem_Ico.mp hu
    obtain hlt | rfl := Nat.lt_succ_iff_lt_or_eq.mp hhi
    · exact (close_forward hb junk hlo hlt hmem).1
    · rw [outsOf, close_outs_end hb] at hmem
      cases hmem
  intro t ht
  have hlt : ∀ u v, TransGen (Release.Edge (Finset.Ico lo (d.graph.fresh + 1))
      (outsOf (d.close junk).graph.heap)) u v → u < v := by
    intro u v huv
    induction huv with
    | single he => exact hone _ _ he
    | tail _ he ih => exact Nat.lt_trans ih (hone _ _ he)
  exact Nat.lt_irrefl t (hlt t t ht)

end Closed

/-! ## The end of a loop -/

theorem enterChecked_eq (info : String) (s : Conflict.Splitting) (v : VirtualTuple) :
    (Conflict.enterChecked info s v).graph =
      { s.graph with addrTask := (Conflict.enterChecked info s v).graph.addrTask } := by
  have hentered := enterTuple_eq s.graph v
  unfold Conflict.enterChecked
  split
  · rfl
  · dsimp only
    split
    · exact hentered
    · dsimp only
      split
      · exact hentered
      · rw [hentered]

theorem clearReaders_tasks {e : RwTask} {t : TaskId} (ht : t ∈ (Conflict.clearReaders e).tasks) :
    t ∈ e.tasks := by
  unfold Conflict.clearReaders at ht
  split at ht
  · obtain ⟨r, hr, rfl⟩ := List.mem_map.mp ht
    exact List.mem_map.mpr ⟨r, List.mem_append_right _ (by simpa using hr), rfl⟩
  · exact ht

/-- The table names the tasks of the tuple and those it has named before. -/
theorem enterChecked_table {S : Set TaskId} {s : Conflict.Splitting} (info : String)
    (htable : ∀ a e, s.graph.addrTask a = some e → ∀ t ∈ e.tasks, t ∈ S) {v : VirtualTuple}
    (hv : ∀ t, v.t = some t → t ∈ S) :
    ∀ a e, (Conflict.enterChecked info s v).graph.addrTask a = some e → ∀ t ∈ e.tasks, t ∈ S := by
  have hentered := enterTuple_table htable hv
  unfold Conflict.enterChecked
  split
  · exact htable
  · dsimp only
    split
    · exact hentered
    · dsimp only
      split
      · exact hentered
      · intro a e he t ht
        dsimp only at he
        by_cases ha : a = v.addr
        · subst ha
          rw [Function.update_self] at he
          obtain ⟨e', he', rfl⟩ := Option.map_eq_some_iff.mp he
          exact hentered v.addr e' he' t (clearReaders_tasks ht)
        · rw [Function.update_of_ne ha] at he
          exact hentered a e he t ht

/-- Merging and the clearing of readers change the table only. -/
theorem endSplitTask_book {lo : TaskId} {g : TaskDagGraph} (hb : Book lo g)
    {layout : Layout} (sort : StdSort layout) (info : String) :
    Book lo (Conflict.endSplitTask sort info g).graph ∧
      (Conflict.endSplitTask sort info g).graph.heap = g.heap ∧
      (Conflict.endSplitTask sort info g).graph.fresh = g.fresh := by
  have key : ∀ (l : List VirtualTuple) (s : Conflict.Splitting), Book lo s.graph →
      (∀ v ∈ l, ∀ t, v.t = some t → lo ≤ t ∧ t < s.graph.fresh) →
      Book lo (l.foldl (Conflict.enterChecked info) s).graph ∧
        (l.foldl (Conflict.enterChecked info) s).graph.heap = s.graph.heap ∧
        (l.foldl (Conflict.enterChecked info) s).graph.fresh = s.graph.fresh := by
    intro l
    induction l with
    | nil => exact fun s hb _ => ⟨hb, rfl, rfl⟩
    | cons v l ih =>
        intro s hb hl
        have heq := enterChecked_eq info s v
        have htable := enterChecked_table (S := {t | lo ≤ t ∧ t < s.graph.fresh}) info hb.table
          (hl v List.mem_cons_self)
        have hfresh : (Conflict.enterChecked info s v).graph.fresh = s.graph.fresh := by rw [heq]
        have hheap : (Conflict.enterChecked info s v).graph.heap = s.graph.heap := by rw [heq]
        have hbook : Book lo (Conflict.enterChecked info s v).graph := by
          rw [heq]
          exact { hb with table := htable }
        obtain ⟨hb', hheap', hfresh'⟩ := ih (Conflict.enterChecked info s v) hbook
          fun w hw => hfresh ▸ hl w (List.mem_cons_of_mem v hw)
        exact ⟨hb', hheap'.trans hheap, hfresh'.trans hfresh⟩
  have hmerged := mergedTuples_book hb sort
  exact key _ _ hmerged hmerged.tuples

/-! ## Every run -/

/-- Between the loops. Tuples of a finished loop are not looked at again. -/
structure Sound (lo : TaskId) (d : DebugGraph) : Prop where
  book : Book lo { d.graph with oneVirtualTaskTuples := [] }
  nums : d.taskNums = d.graph.fresh - lo
  unset : ∀ t, lo ≤ t → t < d.graph.fresh → (d.debug t).refCountForCheck = -1

/-- Within a loop. -/
structure Building (lo : TaskId) (d : DebugGraph) : Prop where
  book : Book lo d.graph
  nums : d.taskNums = d.graph.fresh - lo
  unset : ∀ t, lo ≤ t → t < d.graph.fresh → (d.debug t).refCountForCheck = -1

section Runs

variable {lo : TaskId} {d : DebugGraph} {layout : Layout}

theorem Sound.beginSplitTask (h : Sound lo d) (loopInfo : Option String) (n : Nat) :
    Building lo (d.beginSplitTask loopInfo n) where
  book := h.book.beginSplitTaskNamed n
  nums := h.nums
  unset := h.unset

theorem Building.registerTask (h : Building lo d) (spec : TaskSpec) :
    Building lo (d.registerTask spec) where
  book := h.book.taskGenerator spec
  nums := by
    show d.taskNums + 1 = (d.graph.taskGenerator spec).fresh - lo
    have hle := h.book.lo_le
    rw [taskGenerator_fresh, h.nums]
    lia
  unset := fun t hlo hhi => by
    have hhi : t < (d.graph.taskGenerator spec).fresh := hhi
    rw [taskGenerator_fresh] at hhi
    show (Function.update d.debug d.graph.fresh _ t).refCountForCheck = -1
    by_cases ht : t = d.graph.fresh
    · rw [ht, Function.update_self]
    · rw [Function.update_of_ne ht]
      exact h.unset t hlo (by lia)

theorem Building.endSplitTask (h : Building lo d) (sort : StdSort layout) :
    Sound lo (d.endSplitTask sort) := by
  obtain ⟨hbook, -, hfresh⟩ := endSplitTask_book h.book sort (d.graphCheck.loopInfos.getLastD "")
  constructor
  case book => exact { hbook with tuples := by simp }
  case nums =>
    show d.taskNums = (Conflict.endSplitTask sort _ d.graph).graph.fresh - lo
    rw [hfresh]
    exact h.nums
  case unset => exact fun t hlo hhi => h.unset t hlo (hfresh ▸ hhi)

theorem Sound.loop (h : Sound lo d) (l : DebugGraph.Loop layout) : Sound lo (d.loop l) := by
  have hall : ∀ (specs : List TaskSpec) (d : DebugGraph), Building lo d →
      Building lo (specs.foldl DebugGraph.registerTask d) := by
    intro specs
    induction specs with
    | nil => exact fun d h => h
    | cons spec specs ih => exact fun d h => ih _ (h.registerTask spec)
  exact (hall l.tasks _ (h.beginSplitTask l.loopInfo l.scheNumThreads)).endSplitTask l.sort

theorem Sound.loops (h : Sound lo d) (ls : List (DebugGraph.Loop layout)) :
    Sound lo (ls.foldl DebugGraph.loop d) := by
  induction ls generalizing d with
  | nil => exact h
  | cons l ls ih => exact ih (h.loop l)

/-- What the check of a graph finds. -/
theorem Sound.check (h : Sound lo d) (junk : Junk) (printInfo : Bool) :
    ∃ s, checkGraphBfs (d.close junk).graph.heap (d.close junk).debug d.graph.needSpawnTasks
        d.taskNums printInfo = .ok (true, s) ∧
      (d.taskNums ≠ 0 → s.visited.Nodup ∧
        (∀ t, t ∈ s.visited ↔ t ∈ Finset.Ico lo (d.graph.fresh + 1)) ∧
        (∀ l₁ t l₂, s.visited = l₁ ++ t :: l₂ →
          ∀ u ∈ s.visited, t ∈ ((d.close junk).graph.heap u).outs → u ∈ l₁) ∧
        ∀ t ∈ s.visited, (s.debug t).refCountForCheck = -1) := by
  by_cases hzero : d.taskNums = 0
  · unfold checkGraphBfs
    rw [if_pos hzero]
    exact ⟨_, rfl, fun hne => absurd hzero hne⟩
  · have hlt : lo < d.graph.fresh := by
      have hnums := h.nums
      lia
    -- the tuples play no part
    have hsame : ({ d with graph := { d.graph with oneVirtualTaskTuples := [] } } :
        DebugGraph).close junk = { d.close junk with
          graph := { (d.close junk).graph with oneVirtualTaskTuples := [] } } := rfl
    have hcheck := checkable (d := { d with graph := { d.graph with oneVirtualTaskTuples := [] } })
      h.book junk hlt h.nums h.unset
    have hacyclic := acyclic (d := { d with graph := { d.graph with oneVirtualTaskTuples := [] } })
      h.book junk
    rw [hsame] at hcheck hacyclic
    obtain ⟨s, hs, hnodup, hall, horder, hunset⟩ := (check_graph_iff hcheck printInfo).2 hacyclic
    refine ⟨s, hs, fun _ => ⟨hnodup, hall, ?_, fun t ht => hunset t ((hall t).mp ht)⟩⟩
    exact fun l₁ t l₂ hl u hu => horder l₁ t l₂ hl u ((hall u).mp hu)

theorem Sound.setPrintGraph (h : Sound lo d) (printGraph : Bool) :
    Sound lo (d.setPrintGraph printGraph) := by
  unfold DebugGraph.setPrintGraph
  split
  · exact ⟨h.book, h.nums, h.unset⟩
  · exact h

/-- After `reset_task_graph` a new graph begins. -/
theorem sound_resetTaskGraph (d : DebugGraph) (heap : Heap) :
    Sound d.graph.fresh (d.resetTaskGraph heap) where
  book := Book.empty (g := { (d.resetTaskGraph heap).graph with oneVirtualTaskTuples := [] })
    (fun _ => rfl) rfl rfl rfl
  nums := (Nat.sub_self d.graph.fresh).symm
  unset := fun _ hlo hhi => absurd hlo (Nat.not_le_of_lt hhi)

/-- The check that `end_construct_dag` makes. -/
theorem Sound.endConstructDag (h : Sound lo d) (junk : Junk) :
    ∃ s, checkGraphBfs (d.close junk).graph.heap (d.close junk).debug d.graph.needSpawnTasks
        d.taskNums d.gPrintGraph = .ok (true, s) ∧
      d.endConstructDag junk = .ok (if d.gPrintGraph then
        { d.close junk with
          debug := s.debug
          out := d.out ++ DebugGraph.printIdLoopInfoTable d.graphCheck.loopInfos ++ s.out
          graphCheck := d.graphCheck.clear
          gPrintGraph := false }
        else { d.close junk with debug := s.debug, out := d.out ++ s.out }) := by
  obtain ⟨s, hs, -⟩ := h.check junk d.gPrintGraph
  refine ⟨s, hs, ?_⟩
  unfold DebugGraph.endConstructDag DebugGraph.checkGraph
  cases hprint : d.gPrintGraph with
  | true =>
      rw [hprint] at hs
      rw [if_pos (show (d.close junk).gPrintGraph = true from hprint), if_pos rfl]
      exact congrArg (Except.map _) hs
  | false =>
      rw [hprint] at hs
      rw [if_neg (show ¬(d.close junk).gPrintGraph = true by simp [DebugGraph.close, hprint]),
        if_neg Bool.false_ne_true]
      exact congrArg (Except.map _) hs

theorem Sound.spawnAndWait (h : Sound lo d) (ending : DebugGraph.Ending) :
    ∃ d', d.spawnAndWait ending = .ok d' ∧ Sound d'.graph.fresh d' := by
  cases ending with
  | built printGraph junk heap =>
      obtain ⟨s, -, hend⟩ := (h.setPrintGraph printGraph).endConstructDag junk
      refine ⟨_, congrArg (Except.map _) hend, ?_⟩
      exact sound_resetTaskGraph _ heap
  | stored printGraph heap => exact ⟨_, rfl, sound_resetTaskGraph _ heap⟩

theorem Sound.run (h : Sound lo d) (rounds : List (DebugGraph.Round layout)) :
    ∃ lo d', d.run rounds = .ok d' ∧ Sound lo d' := by
  induction rounds generalizing lo d with
  | nil => exact ⟨lo, d, rfl, h⟩
  | cons r rounds ih =>
      obtain ⟨d₁, hround, h₁⟩ := (h.loops r.loops).spawnAndWait r.ending
      obtain ⟨lo', d', hrun, h'⟩ := ih h₁
      refine ⟨lo', d', ?_, h'⟩
      unfold DebugGraph.run at hrun ⊢
      rw [List.foldlM_cons]
      show (DebugGraph.round d r).bind _ = _
      rw [show DebugGraph.round d r = .ok d₁ from hround]
      exact hrun

theorem sound_start (threadNum : Nat) (debug : TaskId → DebugFields) :
    Sound 0 (DebugGraph.start threadNum debug) where
  book := (blank_init threadNum).book
  nums := rfl
  unset := fun t _ hhi => absurd hhi (Nat.not_lt_zero t)

/-- Whatever a program has built and run before, and whatever it builds now: no assertion of the
check fails, and every object of the graph is visited once, after its predecessors, with its
counter unset again. -/
theorem check_graph_passes (threadNum : Nat) (debug : TaskId → DebugFields)
    (rounds : List (DebugGraph.Round layout)) (loops : List (DebugGraph.Loop layout)) (junk : Junk)
    (printGraph : Bool) :
    ∃ d, (DebugGraph.start threadNum debug).run rounds = .ok d ∧
      let c := (loops.foldl DebugGraph.loop d).close junk
      ∃ s, checkGraphBfs c.graph.heap c.debug c.graph.needSpawnTasks c.taskNums printGraph =
          .ok (true, s) ∧
        (c.taskNums ≠ 0 → s.visited.Nodup ∧
          (∀ t, t ∈ s.visited ↔ t < c.graph.fresh ∧ c.graph.fresh ≤ t + c.taskNums + 1) ∧
          (∀ l₁ t l₂, s.visited = l₁ ++ t :: l₂ →
            ∀ u ∈ s.visited, t ∈ (c.graph.heap u).outs → u ∈ l₁) ∧
          ∀ t ∈ s.visited, (s.debug t).refCountForCheck = -1) := by
  obtain ⟨lo, d, hrun, h⟩ := (sound_start threadNum debug).run rounds
  have hloops := h.loops loops
  obtain ⟨s, hs, hvisited⟩ := hloops.check junk printGraph
  refine ⟨d, hrun, s, hs, fun hne => ?_⟩
  obtain ⟨hnodup, hall, horder, hunset⟩ := hvisited hne
  refine ⟨hnodup, fun t => ?_, horder, hunset⟩
  rw [hall, Finset.mem_Ico]
  have hnums := hloops.nums
  have hne : (loops.foldl DebugGraph.loop d).taskNums ≠ 0 := hne
  show lo ≤ t ∧ t < (loops.foldl DebugGraph.loop d).graph.fresh + 1 ↔
    t < (loops.foldl DebugGraph.loop d).graph.fresh + 1 ∧
      (loops.foldl DebugGraph.loop d).graph.fresh + 1 ≤
        t + (loops.foldl DebugGraph.loop d).taskNums + 1
  lia

end Runs

end AceMesh.GraphCheck
