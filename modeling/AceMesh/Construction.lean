import AceMesh.TaskDagGraph

/-!
# What registering a task does

`registerTask` walks tuples, neighbours and table entries in nested loops. This file writes
its effect in one line (`registerTask_eq`): the accesses of the task are a list, the edges
it attempts are a list computed from the table and these accesses, and the graph changes by
these edges, the recorded tuples and possibly one more root.
-/

namespace AceMesh

open TaskDagGraph

/-! ## Accesses and attempted edges -/

/-- One access of a task: a true address, and whether it was listed as a neighbour. -/
structure Access where
  addr : Addr
  type : InOut
  isNeighbor : Bool

/-- The accesses of one tuple. -/
def AddrTuple.accesses (getNeighbor : Nat → Addr → List Addr) (itr : AddrTuple) : List Access :=
  (if itr.addr ≠ 0 then [⟨getTrueAddr itr.addr itr.areaType, itr.type, false⟩] else []) ++
    if itr.neighbor = NEIGHBOR_NONE then []
    else (getNeighbor itr.neighbor itr.addr).map fun a =>
      ⟨getTrueAddr a itr.areaType, itr.neighborType, true⟩

def TaskDagGraph.TaskSpec.accesses (spec : TaskSpec) : List Access :=
  spec.addrs.flatMap (AddrTuple.accesses spec.getNeighbor)

def Access.tuple (t : TaskId) (a : Access) : VirtualTuple :=
  ⟨a.addr, a.type, some t, a.isNeighbor⟩

/-- The tasks that an access of the given type gets edges from: the readers for a write,
the last writer for a read or when there are no readers. -/
def RwTask.edgeSources (src : RwTask) (type : InOut) : List TaskSignificance :=
  if type = .INOUT_NONE then []
  else if src.rTasks = [] ∨ type = .IN then src.wTask.toList
  else src.rTasks

/-- The edges that the accesses attempt, each with its `is_neighbor` flag. -/
def attempts (table : Addr → Option RwTask) (accs : List Access) :
    List (TaskSignificance × Bool) :=
  accs.flatMap fun a =>
    match table a.addr with
    | some src => (src.edgeSources a.type).map fun r => (r, a.isNeighbor)
    | none => []

namespace TaskDagGraph

def addEdges (dest : TaskId) (g : TaskDagGraph) (es : List (TaskSignificance × Bool)) :
    TaskDagGraph :=
  es.foldl (fun g p => addEdge dest p.2 g p.1) g

/-! ## One edge -/

theorem addEdge_heap (dest : TaskId) (nb : Bool) (g : TaskDagGraph) (src : TaskSignificance) :
    AddsEdge g.heap src.t dest (addEdge dest nb g src).heap := by
  unfold addEdge
  split
  · exact setVerticalTask_addsEdge ..
  · exact addSuccessor_addsEdge ..

theorem addEdge_endTasks (dest : TaskId) (nb : Bool) (g : TaskDagGraph)
    (src : TaskSignificance) : (addEdge dest nb g src).endTasks = g.endTasks.erase src.t := by
  unfold addEdge
  split <;> rfl

/-- An edge changes the heap and the end tasks, and nothing else. -/
theorem addEdge_eq (dest : TaskId) (nb : Bool) (g : TaskDagGraph) (src : TaskSignificance) :
    addEdge dest nb g src =
      { g with
        heap := (addEdge dest nb g src).heap
        endTasks := (addEdge dest nb g src).endTasks } := by
  unfold addEdge
  split <;> rfl

section Edge

variable (dest : TaskId) (nb : Bool) (g : TaskDagGraph) (src : TaskSignificance)

@[simp] theorem addEdge_addrTask : (addEdge dest nb g src).addrTask = g.addrTask := by
  rw [addEdge_eq]

@[simp] theorem addEdge_tuples :
    (addEdge dest nb g src).oneVirtualTaskTuples = g.oneVirtualTaskTuples := by
  rw [addEdge_eq]

@[simp] theorem addEdge_needSpawnTasks :
    (addEdge dest nb g src).needSpawnTasks = g.needSpawnTasks := by
  rw [addEdge_eq]

@[simp] theorem addEdge_fresh : (addEdge dest nb g src).fresh = g.fresh := by
  rw [addEdge_eq]

@[simp] theorem addEdge_reuse : (addEdge dest nb g src).reuse = g.reuse := by
  rw [addEdge_eq]

end Edge

theorem addEdge_withTuples (dest : TaskId) (nb : Bool) (g : TaskDagGraph)
    (src : TaskSignificance) (l : List VirtualTuple) :
    addEdge dest nb { g with oneVirtualTaskTuples := l } src =
      { addEdge dest nb g src with oneVirtualTaskTuples := l } := by
  unfold addEdge
  split <;> rfl

theorem addEdges_withTuples (dest : TaskId) (g : TaskDagGraph)
    (es : List (TaskSignificance × Bool)) (l : List VirtualTuple) :
    addEdges dest { g with oneVirtualTaskTuples := l } es =
      { addEdges dest g es with oneVirtualTaskTuples := l } := by
  induction es generalizing g with
  | nil => rfl
  | cons e es ih =>
      change addEdges dest (addEdge dest e.2 { g with oneVirtualTaskTuples := l } e.1) es = _
      rw [addEdge_withTuples, ih]
      rfl

theorem addEdges_append (dest : TaskId) (g : TaskDagGraph)
    (es fs : List (TaskSignificance × Bool)) :
    addEdges dest g (es ++ fs) = addEdges dest (addEdges dest g es) fs :=
  List.foldl_append

/-- What one edge leaves alone, all edges leave alone. -/
theorem addEdges_field {β : Type} (f : TaskDagGraph → β) (dest : TaskId)
    (hf : ∀ nb g src, f (addEdge dest nb g src) = f g) (g : TaskDagGraph)
    (es : List (TaskSignificance × Bool)) : f (addEdges dest g es) = f g := by
  induction es generalizing g with
  | nil => rfl
  | cons e es ih => exact (ih (addEdge dest e.2 g e.1)).trans (hf e.2 g e.1)

@[simp] theorem addEdges_addrTask (dest : TaskId) (g : TaskDagGraph)
    (es : List (TaskSignificance × Bool)) : (addEdges dest g es).addrTask = g.addrTask :=
  addEdges_field addrTask dest (addEdge_addrTask dest) g es

@[simp] theorem addEdges_tuples (dest : TaskId) (g : TaskDagGraph)
    (es : List (TaskSignificance × Bool)) :
    (addEdges dest g es).oneVirtualTaskTuples = g.oneVirtualTaskTuples :=
  addEdges_field oneVirtualTaskTuples dest (addEdge_tuples dest) g es

@[simp] theorem addEdges_needSpawnTasks (dest : TaskId) (g : TaskDagGraph)
    (es : List (TaskSignificance × Bool)) :
    (addEdges dest g es).needSpawnTasks = g.needSpawnTasks :=
  addEdges_field needSpawnTasks dest (addEdge_needSpawnTasks dest) g es

@[simp] theorem addEdges_fresh (dest : TaskId) (g : TaskDagGraph)
    (es : List (TaskSignificance × Bool)) : (addEdges dest g es).fresh = g.fresh :=
  addEdges_field fresh dest (addEdge_fresh dest) g es

@[simp] theorem addEdges_reuse (dest : TaskId) (g : TaskDagGraph)
    (es : List (TaskSignificance × Bool)) : (addEdges dest g es).reuse = g.reuse :=
  addEdges_field reuse dest (addEdge_reuse dest) g es

/-! ## `build_releationship` -/

/-- Whatever branch is taken, the edges come from `edgeSources` and are counted. -/
theorem buildReleationship_eq (g : TaskDagGraph) (dest : TaskId) (type : InOut) (src : RwTask)
    (nb : Bool) :
    g.buildReleationship dest type src nb =
      (addEdges dest g ((src.edgeSources type).map fun r => (r, nb)),
        (src.edgeSources type).length) := by
  have hloop : ∀ (rs : List TaskSignificance) (s : TaskDagGraph × Nat),
      rs.foldl (fun (s : TaskDagGraph × Nat) r =>
        if type ≠ .INOUT_NONE then (addEdge dest nb s.1 r, s.2 + 1) else s) s =
      if type ≠ .INOUT_NONE then
        (addEdges dest s.1 (rs.map fun r => (r, nb)), s.2 + rs.length)
      else s := by
    intro rs
    induction rs with
    | nil => intro s; split <;> rfl
    | cons r rs ih =>
        intro s
        rw [List.foldl_cons, ih]
        split
        · simp only [List.map_cons, List.length_cons, addEdges, List.foldl_cons]
          rw [Nat.add_assoc, Nat.add_comm 1]
        · rfl
  unfold buildReleationship RwTask.edgeSources
  by_cases hr : src.rTasks = []
  · cases hw : src.wTask with
    | none => simp [hr, addEdges]
    | some tmp =>
        by_cases ht : type = .INOUT_NONE
        · simp [hr, ht, addEdges]
        · simp [hr, ht, addEdges]
  · by_cases hin : type = .IN
    · cases hw : src.wTask with
      | none => simp [hr, hin, addEdges]
      | some tmp => simp [hr, hin, addEdges]
    · rw [if_neg hr, if_neg hin, hloop]
      by_cases ht : type = .INOUT_NONE
      · simp [ht, addEdges]
      · simp [hr, ht, hin]

/-! ## `register_task` -/

theorem registerAccess_eq (t : TaskId) (a : Access) (s : TaskDagGraph × Nat) :
    registerAccess t a.isNeighbor a.type s a.addr =
      ({ addEdges t s.1 (attempts s.1.addrTask [a]) with
          oneVirtualTaskTuples := s.1.oneVirtualTaskTuples ++ [a.tuple t] },
        s.2 + (attempts s.1.addrTask [a]).length) := by
  unfold registerAccess
  have htable : (s.1.addTuplesToVirtualTask t a.addr a.type a.isNeighbor).addrTask =
      s.1.addrTask := rfl
  cases he : s.1.addrTask a.addr with
  | none => simp [attempts, he, addEdges, addTuplesToVirtualTask, Access.tuple]
  | some src =>
      simp only [htable, he, attempts, List.flatMap_cons, List.flatMap_nil, List.append_nil,
        buildReleationship_eq, List.length_map]
      unfold addTuplesToVirtualTask
      rw [addEdges_withTuples]
      rfl

theorem attempts_append (table : Addr → Option RwTask) (as bs : List Access) :
    attempts table (as ++ bs) = attempts table as ++ attempts table bs :=
  List.flatMap_append

theorem registerAccesses_eq (t : TaskId) (as : List Access) (s : TaskDagGraph × Nat) :
    as.foldl (fun s a => registerAccess t a.isNeighbor a.type s a.addr) s =
      ({ addEdges t s.1 (attempts s.1.addrTask as) with
          oneVirtualTaskTuples := s.1.oneVirtualTaskTuples ++ as.map (Access.tuple t) },
        s.2 + (attempts s.1.addrTask as).length) := by
  induction as generalizing s with
  | nil => simp [attempts, addEdges]
  | cons a as ih =>
      rw [List.foldl_cons, ih, registerAccess_eq]
      have happ : attempts s.1.addrTask (a :: as) =
          attempts s.1.addrTask [a] ++ attempts s.1.addrTask as :=
        attempts_append s.1.addrTask [a] as
      rw [addEdges_withTuples]
      simp only [addEdges_addrTask, happ, addEdges_append, List.length_append, List.map_cons,
        List.append_assoc, List.cons_append, List.nil_append, Nat.add_assoc]

theorem registerTuple_eq (t : TaskId) (nb : Nat → Addr → List Addr) (s : TaskDagGraph × Nat)
    (itr : AddrTuple) :
    registerTuple t nb s itr =
      (itr.accesses nb).foldl (fun s a => registerAccess t a.isNeighbor a.type s a.addr) s := by
  unfold registerTuple AddrTuple.accesses
  rw [List.foldl_append]
  by_cases ha : itr.addr ≠ 0
  · by_cases hn : itr.neighbor = NEIGHBOR_NONE
    · simp [ha, hn]
    · simp [ha, hn, List.foldl_map]
  · by_cases hn : itr.neighbor = NEIGHBOR_NONE
    · simp [ha, hn]
    · simp [ha, hn, List.foldl_map]

/-- The graph at the start of `register_task`: the new task is an end task and has its
affinity. -/
def registerStart (g : TaskDagGraph) (t : TaskId) : TaskDagGraph :=
  { g with
    heap := g.heap.setAffinityId t g.myAffinity.getAffinityId.1
    myAffinity := g.myAffinity.getAffinityId.2
    endTasks := g.endTasks.insert t }

/-- The loop over the tuples in `register_task`. -/
theorem registerTuples_eq (g : TaskDagGraph) (t : TaskId) (nb : Nat → Addr → List Addr)
    (addrs : List AddrTuple) :
    addrs.foldl (registerTuple t nb) (g.registerStart t, 0) =
      let accs := addrs.flatMap (AddrTuple.accesses nb)
      let es := attempts g.addrTask accs
      ({ addEdges t (g.registerStart t) es with
        oneVirtualTaskTuples := g.oneVirtualTaskTuples ++ accs.map (Access.tuple t) },
      es.length) := by
  have hfold : ∀ s : TaskDagGraph × Nat, addrs.foldl (registerTuple t nb) s =
      (addrs.flatMap (AddrTuple.accesses nb)).foldl
        (fun s a => registerAccess t a.isNeighbor a.type s a.addr) s := by
    intro s
    rw [List.foldl_flatMap]
    simp only [← registerTuple_eq]
  have htable : (g.registerStart t).addrTask = g.addrTask := rfl
  rw [hfold, registerAccesses_eq]
  simp only [htable, Nat.zero_add]
  rfl

/-- All that `register_task` does. -/
theorem registerTask_eq (g : TaskDagGraph) (t : TaskId) (nb : Nat → Addr → List Addr)
    (addrs : List AddrTuple) :
    g.registerTask t nb addrs =
      let accs := addrs.flatMap (AddrTuple.accesses nb)
      let es := attempts g.addrTask accs
      { addEdges t (g.registerStart t) es with
        oneVirtualTaskTuples := g.oneVirtualTaskTuples ++ accs.map (Access.tuple t)
        needSpawnTasks :=
          if es = [] then g.needSpawnTasks ++ [t] else g.needSpawnTasks } := by
  have hstart : registerTask g t nb addrs =
      (let s := addrs.foldl (registerTuple t nb) (g.registerStart t, 0)
       if s.2 = 0 then { s.1 with needSpawnTasks := s.1.needSpawnTasks ++ [t] } else s.1) := rfl
  rw [hstart, registerTuples_eq]
  simp only [List.length_eq_zero_iff]
  split
  · rename_i hnil
    simp [hnil, addEdges, registerStart]
  · simp [registerStart]

end TaskDagGraph

end AceMesh
