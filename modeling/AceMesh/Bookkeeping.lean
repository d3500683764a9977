import AceMesh.Construction
import Mathlib.Data.Finset.Card
import Mathlib.Logic.Relation
import Mathlib.Order.Interval.Finset.Nat

/-!
# Edge and counter bookkeeping

The invariant that the six branches of `build_releationship`, the two edge functions and
`register_task` keep between them (`Book`): no edge is recorded twice, every counter is the
number of edges into its task, the end tasks are the tasks without an edge out, the roots
are the tasks without an edge in. The counters are raised in `aceMesh_task.cpp`, the end
tasks and roots are kept in `task_dag_graph.cpp`, and only together do they describe one
graph.

The invariant is about the tasks `lo, …, fresh - 1` of the graph under construction; older
objects belong to graphs built before.
-/

namespace AceMesh

open TaskDagGraph Relation

def HeapEdge (h : Heap) (u t : TaskId) : Prop := t ∈ (h u).outs

/-- The tasks with an edge into `t`. -/
def predecessors (lo hi : TaskId) (h : Heap) (t : TaskId) : Finset TaskId :=
  {u ∈ Finset.Ico lo hi | t ∈ (h u).outs}

theorem mem_predecessors {lo hi : TaskId} {h : Heap} {u t : TaskId} :
    u ∈ predecessors lo hi h t ↔ (lo ≤ u ∧ u < hi) ∧ t ∈ (h u).outs := by
  simp [predecessors]

/-! ## Edges -/

/-- The part of the invariant that an edge touches: the heap and the end tasks. -/
structure EdgeBook (lo hi : TaskId) (h : Heap) (ends : List TaskId) : Prop where
  nodup : ∀ u, lo ≤ u → u < hi → (h u).outs.Nodup
  forward : ∀ u, lo ≤ u → u < hi → ∀ t ∈ (h u).outs, u < t ∧ t < hi
  count : ∀ t, lo ≤ t → t < hi → (h t).refCount = (predecessors lo hi h t).card
  ends_nodup : ends.Nodup
  mem_ends : ∀ t, t ∈ ends ↔ (lo ≤ t ∧ t < hi) ∧ (h t).outs = []

theorem predecessors_addsEdge {lo hi : TaskId} {h h' : Heap} {u t : TaskId}
    (hadd : AddsEdge h u t h') (hlo : lo ≤ u) (hhi : u < hi) (w : TaskId) :
    predecessors lo hi h' w =
      if w = t then insert u (predecessors lo hi h w) else predecessors lo hi h w := by
  ext v
  have hv : w ∈ (h' v).outs ↔ w ∈ (h v).outs ∨ (w = t ∧ v = u) := by
    by_cases hvu : v = u
    · subst hvu; simp [hadd.mem_outs]
    · simp [hadd.outs_ne v hvu, hvu]
  split
  · rename_i hw
    rw [Finset.mem_insert, mem_predecessors, mem_predecessors, hv]
    constructor
    · rintro ⟨hr, hmem | ⟨-, rfl⟩⟩
      · exact Or.inr ⟨hr, hmem⟩
      · exact Or.inl rfl
    · rintro (rfl | ⟨hr, hmem⟩)
      · exact ⟨⟨hlo, hhi⟩, Or.inr ⟨hw, rfl⟩⟩
      · exact ⟨hr, Or.inl hmem⟩
  · rename_i hw
    rw [mem_predecessors, mem_predecessors, hv]
    simp [hw]

/-- Recording an edge between two tasks of the graph, from the older to the newer one. -/
theorem EdgeBook.addsEdge {lo hi : TaskId} {h h' : Heap} {ends : List TaskId} {u t : TaskId}
    (hb : EdgeBook lo hi h ends) (hadd : AddsEdge h u t h') (hlo : lo ≤ u) (hut : u < t)
    (hhi : t < hi) : EdgeBook lo hi h' (ends.erase u) := by
  have hu : u < hi := by lia
  constructor
  case nodup =>
    intro v hvlo hvhi
    by_cases hvu : v = u
    · subst hvu; exact hadd.nodup (hb.nodup v hvlo hvhi)
    · rw [hadd.outs_ne v hvu]; exact hb.nodup v hvlo hvhi
  case forward =>
    intro v hvlo hvhi x hx
    by_cases hvu : v = u
    · subst hvu
      rcases (hadd.mem_outs x).mp hx with hold | rfl
      · exact hb.forward v hvlo hvhi x hold
      · exact ⟨hut, hhi⟩
    · rw [hadd.outs_ne v hvu] at hx
      exact hb.forward v hvlo hvhi x hx
  case count =>
    intro w hwlo hwhi
    rw [hadd.refCount, hb.count w hwlo hwhi, predecessors_addsEdge hadd hlo hu w]
    by_cases hw : w = t
    · subst hw
      by_cases hmem : w ∈ (h u).outs
      · have hin : u ∈ predecessors lo hi h w := mem_predecessors.mpr ⟨⟨hlo, hu⟩, hmem⟩
        simp [hmem, Finset.insert_eq_of_mem hin]
      · have hout : u ∉ predecessors lo hi h w := fun hin => hmem (mem_predecessors.mp hin).2
        simp [hmem, Finset.card_insert_of_notMem hout]
    · simp [hw]
  case ends_nodup => exact hb.ends_nodup.erase u
  case mem_ends =>
    intro w
    rw [hb.ends_nodup.mem_erase_iff, hb.mem_ends]
    by_cases hwu : w = u
    · subst hwu
      have hne : (h' w).outs ≠ [] := List.ne_nil_of_mem ((hadd.mem_outs t).mpr (Or.inr rfl))
      simp [hne]
    · simp [hadd.outs_ne w hwu, hwu]

/-- A new object without edges, which becomes an end task. -/
theorem EdgeBook.alloc {lo hi : TaskId} {h : Heap} {ends : List TaskId} (hlo : lo ≤ hi)
    (hb : EdgeBook lo hi h ends) {o : Task} (houts : o.outs = []) (hcount : o.refCount = 0) :
    EdgeBook lo (hi + 1) (h.modify hi fun _ => o) (ends.insert hi) := by
  have hold : ∀ u, u < hi → (h.modify hi fun _ => o) u = h u :=
    fun u hu => Heap.modify_of_ne h (by lia) _
  have hpred : ∀ t, predecessors lo (hi + 1) (h.modify hi fun _ => o) t =
      predecessors lo hi h t := by
    intro t
    ext u
    rw [mem_predecessors, mem_predecessors]
    by_cases hu : u = hi
    · subst hu; simp [houts]
    · by_cases hlt : u < hi
      · rw [hold u hlt]; simp [hlt, Nat.lt_succ_of_lt hlt]
      · have : ¬ u < hi + 1 := by lia
        simp [hlt, this]
  have hnew : hi ∉ ends := fun hm => by have := ((hb.mem_ends hi).mp hm).1; lia
  constructor
  case nodup =>
    intro u hulo huhi
    by_cases hu : u = hi
    · subst hu; simp [houts]
    · rw [hold u (by lia)]; exact hb.nodup u hulo (by lia)
  case forward =>
    intro u hulo huhi x hx
    by_cases hu : u = hi
    · subst hu; simp [houts] at hx
    · rw [hold u (by lia)] at hx
      have := hb.forward u hulo (by lia) x hx
      lia
  case count =>
    intro t htlo hthi
    rw [hpred]
    by_cases ht : t = hi
    · subst ht
      have hempty : predecessors lo t h t = ∅ := by
        ext u
        simp only [mem_predecessors, Finset.notMem_empty, iff_false]
        rintro ⟨⟨hulo, huhi⟩, hmem⟩
        have := hb.forward u hulo huhi t hmem
        lia
      simp [hcount, hempty]
    · rw [hold t (by lia)]; exact hb.count t htlo (by lia)
  case ends_nodup => exact hb.ends_nodup.insert
  case mem_ends =>
    intro t
    rw [List.mem_insert_iff, hb.mem_ends]
    by_cases ht : t = hi
    · subst ht; simp [houts, hlo]
    · by_cases hlt : t < hi
      · rw [hold t hlt]; simp [ht, hlt, Nat.lt_succ_of_lt hlt]
      · have : ¬ t < hi + 1 := by lia
        simp [ht, hlt, this]

/-- The other fields of an object do not matter. -/
theorem EdgeBook.congr {lo hi : TaskId} {h h' : Heap} {ends : List TaskId}
    (hb : EdgeBook lo hi h ends) (houts : ∀ u, lo ≤ u → u < hi → (h' u).outs = (h u).outs)
    (hcount : ∀ u, lo ≤ u → u < hi → (h' u).refCount = (h u).refCount) :
    EdgeBook lo hi h' ends := by
  have hpred : ∀ t, predecessors lo hi h' t = predecessors lo hi h t := by
    intro t
    ext u
    rw [mem_predecessors, mem_predecessors]
    exact and_congr_right fun hu => by rw [houts u hu.1 hu.2]
  constructor
  case nodup =>
    intro u hlo hhi
    rw [houts u hlo hhi]; exact hb.nodup u hlo hhi
  case forward =>
    intro u hlo hhi
    rw [houts u hlo hhi]; exact hb.forward u hlo hhi
  case count =>
    intro t hlo hhi
    rw [hcount t hlo hhi, hpred]; exact hb.count t hlo hhi
  case ends_nodup => exact hb.ends_nodup
  case mem_ends =>
    intro t
    rw [hb.mem_ends]
    exact and_congr_right fun ht => by rw [houts t ht.1 ht.2]

/-! ## All edges of one task -/

section AddEdges

variable {lo hi dest : TaskId}

theorem EdgeBook.addEdges {g : TaskDagGraph} {es : List (TaskSignificance × Bool)}
    (hb : EdgeBook lo hi g.heap g.endTasks) (hsrc : ∀ p ∈ es, lo ≤ p.1.t ∧ p.1.t < dest)
    (hhi : dest < hi) :
    EdgeBook lo hi (addEdges dest g es).heap (addEdges dest g es).endTasks := by
  induction es generalizing g with
  | nil => exact hb
  | cons e es ih =>
      have he := hsrc e List.mem_cons_self
      refine ih (g := addEdge dest e.2 g e.1) ?_ fun p hp => hsrc p (List.mem_cons_of_mem _ hp)
      rw [addEdge_endTasks]
      exact hb.addsEdge (addEdge_heap dest e.2 g e.1) he.1 he.2 hhi

theorem mem_outs_addEdges (g : TaskDagGraph) (es : List (TaskSignificance × Bool))
    (u x : TaskId) :
    x ∈ ((addEdges dest g es).heap u).outs ↔
      x ∈ (g.heap u).outs ∨ (x = dest ∧ ∃ p ∈ es, p.1.t = u) := by
  induction es generalizing g with
  | nil => simp [TaskDagGraph.addEdges]
  | cons e es ih =>
      have hstep := addEdge_heap dest e.2 g e.1
      have hone : x ∈ ((addEdge dest e.2 g e.1).heap u).outs ↔
          x ∈ (g.heap u).outs ∨ (x = dest ∧ e.1.t = u) := by
        by_cases hu : u = e.1.t
        · subst hu; simp [hstep.mem_outs]
        · simp [hstep.outs_ne u hu, Ne.symm hu]
      change x ∈ ((TaskDagGraph.addEdges dest (addEdge dest e.2 g e.1) es).heap u).outs ↔ _
      rw [ih, hone, List.exists_mem_cons_iff, or_assoc, ← and_or_left]

theorem attrs_addEdges (dest : TaskId) (g : TaskDagGraph)
    (es : List (TaskSignificance × Bool)) (w : TaskId) :
    ((addEdges dest g es).heap w).attrs = (g.heap w).attrs :=
  addEdges_field (fun g => (g.heap w).attrs) dest
    (fun nb g src => (addEdge_heap dest nb g src).attrs w) g es

theorem frame_addEdges (g : TaskDagGraph) {es : List (TaskSignificance × Bool)} {w : TaskId}
    (hsrc : ∀ p ∈ es, w ≠ p.1.t) (hw : w ≠ dest) :
    (addEdges dest g es).heap w = g.heap w := by
  induction es generalizing g with
  | nil => rfl
  | cons e es ih =>
      rw [← (addEdge_heap dest e.2 g e.1).frame w (hsrc e List.mem_cons_self) hw]
      exact ih _ fun p hp => hsrc p (List.mem_cons_of_mem _ hp)

end AddEdges

/-! ## The table -/

/-- The tasks an entry of `addr_task` names. -/
def RwTask.tasks (e : RwTask) : List TaskId := (e.rTasks ++ e.wTask.toList).map (·.t)

theorem RwTask.edgeSources_tasks {e : RwTask} {type : InOut} {r : TaskSignificance}
    (hr : r ∈ e.edgeSources type) : r.t ∈ e.tasks := by
  unfold edgeSources at hr
  split at hr
  · simp at hr
  · split at hr
    · exact List.mem_map.mpr ⟨r, List.mem_append_right _ hr, rfl⟩
    · exact List.mem_map.mpr ⟨r, List.mem_append_left _ hr, rfl⟩

theorem mem_attempts {table : Addr → Option RwTask} {accs : List Access}
    {p : TaskSignificance × Bool} :
    p ∈ attempts table accs ↔ ∃ a ∈ accs, ∃ e, table a.addr = some e ∧
      p.1 ∈ e.edgeSources a.type ∧ p.2 = a.isNeighbor := by
  simp only [attempts, List.mem_flatMap]
  refine exists_congr fun a => and_congr_right fun _ => ?_
  cases he : table a.addr with
  | none => simp
  | some e =>
      simp only [Option.some.injEq, exists_eq_left', List.mem_map]
      constructor
      · rintro ⟨r, hr, rfl⟩
        exact ⟨hr, rfl⟩
      · rintro ⟨hr, hp⟩
        exact ⟨p.1, hr, by rw [← hp]⟩

theorem enterAccess_tasks {entry : Option RwTask} {type : InOut} {t : TaskId} {s : Bool}
    {x : TaskId} (hx : x ∈ (enterAccess entry type t s).tasks) :
    x = t ∨ ∃ e, entry = some e ∧ x ∈ e.tasks := by
  unfold enterAccess at hx
  cases entry with
  | none =>
      dsimp only at hx
      split at hx
      · exact Or.inl (by simpa [RwTask.tasks] using hx)
      · exact Or.inl (by simpa [RwTask.tasks] using hx)
  | some e =>
      dsimp only at hx
      split at hx
      · exact Or.inl (by simpa [RwTask.tasks] using hx)
      · obtain ⟨r, hr, rfl⟩ := List.mem_map.mp hx
        have hr : r ∈ e.rTasks ++ e.wTask.toList ∨ r = ⟨t, s⟩ := by
          simp only [List.mem_append, List.mem_singleton] at hr ⊢
          tauto
        rcases hr with hr | rfl
        · exact Or.inr ⟨e, rfl, List.mem_map.mpr ⟨r, hr, rfl⟩⟩
        · exact Or.inl rfl

/-! ## The invariant -/

/-- The bookkeeping invariant of the graph under construction. -/
structure Book (lo : TaskId) (g : TaskDagGraph) : Prop where
  edges : EdgeBook lo g.fresh g.heap g.endTasks
  lo_le : lo ≤ g.fresh
  table : ∀ a e, g.addrTask a = some e → ∀ t ∈ e.tasks, lo ≤ t ∧ t < g.fresh
  tuples : ∀ v ∈ g.oneVirtualTaskTuples, ∀ t, v.t = some t → lo ≤ t ∧ t < g.fresh
  roots_nodup : g.needSpawnTasks.Nodup
  mem_roots : ∀ t, t ∈ g.needSpawnTasks ↔
    (lo ≤ t ∧ t < g.fresh) ∧ ∀ u, lo ≤ u → u < g.fresh → t ∉ (g.heap u).outs
  kind : ∀ t, lo ≤ t → t < g.fresh →
    (g.heap t).isAceMesh = true ∧ (g.heap t).stored = false ∧ (g.heap t).deleted = false

/-- A graph without tasks of its own. -/
theorem Book.empty {g : TaskDagGraph} (htable : ∀ a, g.addrTask a = none)
    (htuples : g.oneVirtualTaskTuples = []) (hroots : g.needSpawnTasks = [])
    (hends : g.endTasks = []) : Book g.fresh g where
  edges :=
    { nodup := fun u hlo hhi => by lia
      forward := fun u hlo hhi => by lia
      count := fun t hlo hhi => by lia
      ends_nodup := by simp [hends]
      mem_ends := fun t => by
        rw [hends]
        have : ¬ (g.fresh ≤ t ∧ t < g.fresh) := by lia
        simp [this] }
  lo_le := Nat.le_refl _
  table := fun a e he => by simp [htable] at he
  tuples := by simp [htuples]
  roots_nodup := by simp [hroots]
  mem_roots := fun t => by
    rw [hroots]
    have : ¬ (g.fresh ≤ t ∧ t < g.fresh) := by lia
    simp [this]
  kind := fun t hlo hhi => by lia

theorem Book.beginSplitTask {lo : TaskId} {g : TaskDagGraph} (hb : Book lo g) :
    Book lo g.beginSplitTask :=
  { hb with tuples := by simp [TaskDagGraph.beginSplitTask] }

theorem Book.beginSplitTaskNamed {lo : TaskId} {g : TaskDagGraph} (hb : Book lo g) (n : Nat) :
    Book lo (g.beginSplitTaskNamed n) :=
  { hb with tuples := by simp [TaskDagGraph.beginSplitTaskNamed] }

/-- The table names the tasks of the tuple and those it has named before. -/
theorem enterTuple_table {S : Set TaskId} {g : TaskDagGraph}
    (htable : ∀ a e, g.addrTask a = some e → ∀ t ∈ e.tasks, t ∈ S) {v : VirtualTuple}
    (hv : ∀ t, v.t = some t → t ∈ S) :
    ∀ a e, (g.enterTuple v).addrTask a = some e → ∀ t ∈ e.tasks, t ∈ S := by
  cases ht : v.t with
  | none => simpa [TaskDagGraph.enterTuple, ht] using htable
  | some t =>
      by_cases hskip : v.type = .INOUT_NONE ∨ v.addr = 0
      · simpa [TaskDagGraph.enterTuple, ht, hskip] using htable
      · simp only [TaskDagGraph.enterTuple, ht, if_neg hskip]
        intro a e he x hx
        by_cases ha : a = v.addr
        · subst ha
          simp only [Function.update_self, Option.some.injEq] at he
          subst he
          rcases enterAccess_tasks hx with rfl | ⟨e, he, hx⟩
          · exact hv x ht
          · exact htable _ e he x hx
        · simp only [Function.update_of_ne ha] at he
          exact htable a e he x hx

/-- Entering a tuple changes the table and nothing else. -/
theorem enterTuple_eq (g : TaskDagGraph) (v : VirtualTuple) :
    g.enterTuple v = { g with addrTask := (g.enterTuple v).addrTask } := by
  unfold enterTuple
  split
  · rfl
  · split <;> rfl

theorem endSplitTask_eq (g : TaskDagGraph) :
    g.endSplitTask = { g with addrTask := g.endSplitTask.addrTask } := by
  unfold TaskDagGraph.endSplitTask
  have key : ∀ (l : List VirtualTuple) (g : TaskDagGraph),
      l.foldl enterTuple g = { g with addrTask := (l.foldl enterTuple g).addrTask } := by
    intro l
    induction l with
    | nil => exact fun g => rfl
    | cons v l ih =>
        intro g
        rw [List.foldl_cons, ih (g.enterTuple v), enterTuple_eq g v]
  exact key _ g

theorem endSplitTask_table {S : Set TaskId} {g : TaskDagGraph}
    (htable : ∀ a e, g.addrTask a = some e → ∀ t ∈ e.tasks, t ∈ S)
    (htuples : ∀ v ∈ g.oneVirtualTaskTuples, ∀ t, v.t = some t → t ∈ S) :
    ∀ a e, g.endSplitTask.addrTask a = some e → ∀ t ∈ e.tasks, t ∈ S := by
  unfold TaskDagGraph.endSplitTask
  have key : ∀ (l : List VirtualTuple) (g : TaskDagGraph),
      (∀ a e, g.addrTask a = some e → ∀ t ∈ e.tasks, t ∈ S) →
      (∀ v ∈ l, ∀ t, v.t = some t → t ∈ S) →
      ∀ a e, (l.foldl TaskDagGraph.enterTuple g).addrTask a = some e → ∀ t ∈ e.tasks, t ∈ S := by
    intro l
    induction l with
    | nil => intro g htable _; exact htable
    | cons v l ih =>
        intro g htable hl
        refine ih (g.enterTuple v) (enterTuple_table htable (hl v List.mem_cons_self)) ?_
        exact fun w hw => hl w (List.mem_cons_of_mem _ hw)
  exact key _ g htable htuples

theorem Book.endSplitTask {lo : TaskId} {g : TaskDagGraph} (hb : Book lo g) :
    Book lo g.endSplitTask := by
  have htable := endSplitTask_table (S := {t | lo ≤ t ∧ t < g.fresh}) hb.table hb.tuples
  rw [endSplitTask_eq]
  exact { hb with table := htable }

/-- Every edge a new task attempts starts at an older task of the same graph. -/
theorem Book.attempts_lt {lo : TaskId} {g : TaskDagGraph} (hb : Book lo g) {accs : List Access}
    {p : TaskSignificance × Bool} (hp : p ∈ attempts g.addrTask accs) :
    lo ≤ p.1.t ∧ p.1.t < g.fresh := by
  obtain ⟨a, -, e, he, hr, -⟩ := mem_attempts.mp hp
  exact hb.table _ e he _ (RwTask.edgeSources_tasks hr)

/-- The graph with the new object in it, at the start of `register_task`. -/
theorem Book.startEdges {lo : TaskId} {g : TaskDagGraph} (hb : Book lo g) (junk : Junk) :
    EdgeBook lo (g.fresh + 1)
      ((g.alloc (Task.newAceMesh junk)).registerStart g.fresh).heap
      ((g.alloc (Task.newAceMesh junk)).registerStart g.fresh).endTasks := by
  refine (hb.edges.alloc hb.lo_le (o := Task.newAceMesh junk) rfl rfl).congr ?_ ?_
  · intro u _ _
    simp only [registerStart, alloc, Heap.setAffinityId]
    rw [Heap.modify_apply (h := g.heap.modify _ _)]
    split <;> rfl
  · intro u _ _
    simp only [registerStart, alloc, Heap.setAffinityId]
    rw [Heap.modify_apply (h := g.heap.modify _ _)]
    split <;> rfl

theorem registerStart_old (g : TaskDagGraph) (junk : Junk) {w : TaskId} (hw : w ≠ g.fresh) :
    ((g.alloc (Task.newAceMesh junk)).registerStart g.fresh).heap w = g.heap w := by
  simp only [registerStart, alloc, Heap.setAffinityId]
  rw [Heap.modify_of_ne _ hw, Heap.modify_of_ne _ hw]

theorem registerStart_new (g : TaskDagGraph) (junk : Junk) :
    ((g.alloc (Task.newAceMesh junk)).registerStart g.fresh).heap g.fresh =
      { Task.newAceMesh junk with affinityId := g.myAffinity.getAffinityId.1 } := by
  simp only [registerStart, alloc, Heap.setAffinityId, Heap.modify_self]

/-- The edges after a registration: the old ones, and one into the new task from every
source of an attempt. -/
theorem mem_outs_taskGenerator (g : TaskDagGraph) (spec : TaskSpec) {u x : TaskId}
    (hu : u ≠ g.fresh) :
    x ∈ ((g.taskGenerator spec).heap u).outs ↔ x ∈ (g.heap u).outs ∨
      (x = g.fresh ∧ ∃ p ∈ attempts g.addrTask spec.accesses, p.1.t = u) := by
  rw [taskGenerator, registerTask_eq]
  change x ∈ ((addEdges g.fresh _ (attempts g.addrTask spec.accesses)).heap u).outs ↔ _
  rw [mem_outs_addEdges, registerStart_old g spec.junk hu]

theorem outs_taskGenerator_new {lo : TaskId} {g : TaskDagGraph} (hb : Book lo g)
    (spec : TaskSpec) : ((g.taskGenerator spec).heap g.fresh).outs = [] := by
  rw [taskGenerator, registerTask_eq]
  change ((addEdges g.fresh _ (attempts g.addrTask spec.accesses)).heap g.fresh).outs = []
  rw [List.eq_nil_iff_forall_not_mem]
  intro x hx
  rcases (mem_outs_addEdges _ _ _ _).mp hx with hx | ⟨-, p, hp, hpt⟩
  · rw [registerStart_new] at hx
    simp [Task.outs, Task.newAceMesh] at hx
  · have := hb.attempts_lt hp
    lia

@[simp] theorem taskGenerator_fresh (g : TaskDagGraph) (spec : TaskSpec) :
    (g.taskGenerator spec).fresh = g.fresh + 1 := by
  rw [taskGenerator, registerTask_eq]
  simp [registerStart, alloc]

@[simp] theorem taskGenerator_addrTask (g : TaskDagGraph) (spec : TaskSpec) :
    (g.taskGenerator spec).addrTask = g.addrTask := by
  rw [taskGenerator, registerTask_eq]
  simp [registerStart, alloc]

theorem taskGenerator_tuples (g : TaskDagGraph) (spec : TaskSpec) :
    (g.taskGenerator spec).oneVirtualTaskTuples =
      g.oneVirtualTaskTuples ++ spec.accesses.map (Access.tuple g.fresh) := by
  rw [taskGenerator, registerTask_eq]
  rfl

theorem taskGenerator_roots (g : TaskDagGraph) (spec : TaskSpec) :
    (g.taskGenerator spec).needSpawnTasks =
      if attempts g.addrTask spec.accesses = [] then g.needSpawnTasks ++ [g.fresh]
      else g.needSpawnTasks := by
  rw [taskGenerator, registerTask_eq]
  rfl

/-- An old task keeps its edges in, the new one has those it attempted. -/
theorem Book.noEdge_taskGenerator {lo : TaskId} {g : TaskDagGraph} (hb : Book lo g)
    (spec : TaskSpec) (t : TaskId) :
    (∀ u, lo ≤ u → u < g.fresh + 1 → t ∉ ((g.taskGenerator spec).heap u).outs) ↔
      (∀ u, lo ≤ u → u < g.fresh → t ∉ (g.heap u).outs) ∧
        (t = g.fresh → attempts g.addrTask spec.accesses = []) := by
  constructor
  · intro h
    refine ⟨fun u hu huf hm => ?_, fun ht => ?_⟩
    · exact h u hu (by lia) ((mem_outs_taskGenerator g spec (by lia)).mpr (Or.inl hm))
    · rw [List.eq_nil_iff_forall_not_mem]
      intro p hp
      have hp' := hb.attempts_lt hp
      apply h p.1.t hp'.1 (by lia)
      exact (mem_outs_taskGenerator g spec (by lia)).mpr (Or.inr ⟨ht, p, hp, rfl⟩)
  · rintro ⟨hold, hatt⟩ u hu huf hm
    by_cases huf' : u = g.fresh
    · subst huf'
      simp [outs_taskGenerator_new hb spec] at hm
    · rcases (mem_outs_taskGenerator g spec huf').mp hm with hm | ⟨ht, p, hp, -⟩
      · exact hold u hu (by lia) hm
      · simp [hatt ht] at hp

theorem Book.mem_roots_taskGenerator {lo : TaskId} {g : TaskDagGraph} (hb : Book lo g)
    (spec : TaskSpec) (t : TaskId) : t ∈ (g.taskGenerator spec).needSpawnTasks ↔
      (lo ≤ t ∧ t < (g.taskGenerator spec).fresh) ∧
        ∀ u, lo ≤ u → u < (g.taskGenerator spec).fresh →
          t ∉ ((g.taskGenerator spec).heap u).outs := by
  have hlo := hb.lo_le
  rw [taskGenerator_fresh, taskGenerator_roots, hb.noEdge_taskGenerator spec t]
  by_cases ht : t = g.fresh
  · subst ht
    have hno : ∀ u, lo ≤ u → u < g.fresh → g.fresh ∉ (g.heap u).outs := by
      intro u hu huf hm
      have := hb.edges.forward u hu huf _ hm
      lia
    have hroot : g.fresh ∉ g.needSpawnTasks := by
      rw [hb.mem_roots]; lia
    split <;> rename_i hnil
    · simp [hnil, hlo]
      exact hno
    · simp [hnil, hroot]
  · have hmem : (t ∈ if attempts g.addrTask spec.accesses = [] then g.needSpawnTasks ++ [g.fresh]
        else g.needSpawnTasks) ↔ t ∈ g.needSpawnTasks := by
      split <;> simp [ht]
    rw [hmem, hb.mem_roots]
    have : t < g.fresh + 1 ↔ t < g.fresh := by lia
    simp [ht, this]

theorem Book.kind_taskGenerator {lo : TaskId} {g : TaskDagGraph} (hb : Book lo g)
    (spec : TaskSpec) (t : TaskId) (htlo : lo ≤ t) (hthi : t < (g.taskGenerator spec).fresh) :
    ((g.taskGenerator spec).heap t).isAceMesh = true ∧
      ((g.taskGenerator spec).heap t).stored = false ∧
        ((g.taskGenerator spec).heap t).deleted = false := by
  rw [taskGenerator_fresh] at hthi
  rw [TaskDagGraph.taskGenerator, registerTask_eq]
  have hattrs := attrs_addEdges g.fresh
    ((g.alloc (Task.newAceMesh spec.junk)).registerStart g.fresh)
    (attempts g.addrTask spec.accesses) t
  simp only [Task.attrs, Prod.mk.injEq] at hattrs
  obtain ⟨h1, -, -, h4, -, h6⟩ := hattrs
  change ((TaskDagGraph.addEdges g.fresh _ (attempts g.addrTask spec.accesses)).heap t).isAceMesh
    = true ∧ _
  refine ⟨h1.trans ?_, h4.trans ?_, h6.trans ?_⟩
  all_goals
    by_cases ht : t = g.fresh
    · subst ht
      rw [registerStart_new]
      rfl
    · rw [registerStart_old g spec.junk ht]
      have := hb.kind t htlo (by lia)
      tauto

theorem Book.taskGenerator {lo : TaskId} {g : TaskDagGraph} (hb : Book lo g) (spec : TaskSpec) :
    Book lo (g.taskGenerator spec) := by
  have hlo := hb.lo_le
  constructor
  case edges =>
    rw [taskGenerator_fresh, TaskDagGraph.taskGenerator, registerTask_eq]
    exact (hb.startEdges spec.junk).addEdges (fun p hp => hb.attempts_lt hp) (Nat.lt_succ_self _)
  case lo_le => rw [taskGenerator_fresh]; lia
  case table =>
    intro a e he t ht
    rw [taskGenerator_addrTask] at he
    have := hb.table a e he t ht
    rw [taskGenerator_fresh]; lia
  case tuples =>
    intro v hv t ht
    rw [taskGenerator_fresh]
    rw [taskGenerator_tuples, List.mem_append] at hv
    rcases hv with hv | hv
    · have := hb.tuples v hv t ht
      lia
    · obtain ⟨a, -, rfl⟩ := List.mem_map.mp hv
      have : g.fresh = t := by simpa [Access.tuple] using ht
      lia
  case roots_nodup =>
    rw [taskGenerator_roots]
    split
    · refine hb.roots_nodup.append (List.nodup_singleton _) ?_
      intro t ht htf
      have := ((hb.mem_roots t).mp ht).1
      rw [List.mem_singleton.mp htf] at this
      lia
    · exact hb.roots_nodup
  case mem_roots =>
    exact hb.mem_roots_taskGenerator spec
  case kind =>
    exact hb.kind_taskGenerator spec

theorem Book.build {lo : TaskId} {g : TaskDagGraph} (hb : Book lo g) (c : BuildCall) :
    Book lo (g.build c) := by
  cases c with
  | registerTask spec => exact hb.taskGenerator spec
  | beginSplitTask => exact hb.beginSplitTask
  | beginSplitTaskNamed n => exact hb.beginSplitTaskNamed n
  | endSplitTask => exact hb.endSplitTask

theorem Book.buildAll {lo : TaskId} {g : TaskDagGraph} (hb : Book lo g)
    (calls : List BuildCall) : Book lo (g.buildAll calls) := by
  unfold TaskDagGraph.buildAll
  induction calls generalizing g with
  | nil => exact hb
  | cons c calls ih => exact ih (hb.build c)

end AceMesh
