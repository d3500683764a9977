import AceMesh.Task

/-!
# The task graph under construction

`task_dag_graph.cpp` in the default build (`NO_PARALLEL`, neither `MERGE_SAME_ADDR` nor
`SPECIFY_END_TASKS`): a program registers tasks with address tuples between
`begin_split_task` and `end_split_task`. `register_task` looks every address up in
`addr_task` and records edges at once; `end_split_task` enters the tuples of the finished
loop into `addr_task`.

Addresses are numbers, `NULL` is `0`. The maps are functions into `Option`. The two
functions that a task object brings along are given with it: its tuples, and what its
virtual `get_neighbor` appends to the array it is handed.
-/

namespace AceMesh

abbrev Addr := Nat

/-- The read/write flag of an address. -/
inductive InOut
  | INOUT_NONE
  | IN
  | OUT
  | INOUT
  deriving DecidableEq, Repr

namespace InOut

/-- `OUT` or `INOUT`. -/
def writes : InOut → Bool
  | OUT => true
  | INOUT => true
  | _ => false

/-- `IN` or `INOUT`. -/
def reads : InOut → Bool
  | IN => true
  | INOUT => true
  | _ => false

end InOut

/-- The area an address stands for. -/
inductive AreaType
  | NORMAL
  | SHADE
  | UNSHADE
  deriving DecidableEq, Repr

def NEIGHBOR_NONE : Nat := 0

/-- `tuple_addr_type`: what the interface takes in. -/
structure AddrTuple where
  addr : Addr
  areaType : AreaType
  type : InOut
  neighbor : Nat
  neighborType : InOut

/-- `tuple_addr_task`: one recorded access. `t` is `NULL` only after a merge. -/
structure VirtualTuple where
  addr : Addr
  type : InOut
  t : Option TaskId
  significance : Bool

/-- `task_addr_relation` with a task in it. The flag is `0` for an own address and `1` for
a neighbour address. -/
structure TaskSignificance where
  t : TaskId
  significance : Bool

/-- `tuple_rw_task`: the last writer of an address and the readers since. An entry with
neither is the one `build_releationship` asserts against, so it is excluded here. -/
structure RwTask where
  rTasks : List TaskSignificance
  wTask : Option TaskSignificance
  nonempty : rTasks ≠ [] ∨ wTask ≠ none

/-- `affinity_id_generator`. -/
structure AffinityIdGenerator where
  id : Nat
  threadNum : Nat

def AffinityIdGenerator.getAffinityId (a : AffinityIdGenerator) : Nat × AffinityIdGenerator :=
  (a.id, { a with id := (a.id + 1) % a.threadNum })

def AffinityIdGenerator.setThreadNum (a : AffinityIdGenerator) (n : Nat) : AffinityIdGenerator :=
  { a with threadNum := n }

def AffinityIdGenerator.resetAffinityId (a : AffinityIdGenerator) : AffinityIdGenerator :=
  { a with id := 0 }

/-- A `double`, by its bits. -/
structure Double where
  bits : BitVec 64

namespace Double

/-- The bits without the sign. -/
def magnitude (x : Double) : BitVec 64 := x.bits &&& 0x7FFFFFFFFFFFFFFF#64

def isNaN (x : Double) : Bool := 0x7FF0000000000000#64 < x.magnitude

/-- `==`. A NaN is not equal to anything, and the two zeros are equal. -/
instance : BEq Double where
  beq x y := !x.isNaN && !y.isNaN &&
    (x.bits == y.bits || (x.magnitude == 0#64 && y.magnitude == 0#64))

end Double

/-- `dag_instance`. -/
structure DagInstance where
  endTask : TaskId
  needSpawnTasks : List TaskId
  deriving DecidableEq

/-- The fields of `task_dag_graph` that serve the reuse of graphs. -/
structure DagReuse where
  currDagNo : Int
  dagIvecMap : Int → List Int
  dagFvecMap : Int → List Double
  dagReuseCnt : Int → Option Int
  dagReuseFlag : Int → Option Bool
  dagInstanceMap : Int → Option DagInstance

/-- The fields of `task_dag_graph`, with the heap its objects live in and the name of the
next object. -/
structure TaskDagGraph where
  heap : Heap
  fresh : TaskId
  needSpawnTasks : List TaskId
  addrTask : Addr → Option RwTask
  oneVirtualTaskTuples : List VirtualTuple
  endTasks : List TaskId
  endTask : Option TaskId
  myAffinity : AffinityIdGenerator
  reuse : DagReuse

/-- The constructor, with the thread number that `init` sets. -/
def TaskDagGraph.init (threadNum : Nat) : TaskDagGraph where
  heap := fun _ => Task.newAceMesh ⟨false, 0⟩
  fresh := 0
  needSpawnTasks := []
  addrTask := fun _ => none
  oneVirtualTaskTuples := []
  endTasks := []
  endTask := none
  myAffinity := ⟨0, threadNum⟩
  reuse :=
    { currDagNo := 0
      dagIvecMap := fun _ => []
      dagFvecMap := fun _ => []
      dagReuseCnt := fun _ => none
      dagReuseFlag := fun _ => none
      dagInstanceMap := fun _ => none }

def getShadeAddr (inputAddr : Addr) : Addr := inputAddr + 1

def getUnshadeAddr (inputAddr : Addr) : Addr := inputAddr + 0

def getTrueAddr (addr : Addr) : AreaType → Addr
  | .NORMAL => addr
  | .SHADE => getShadeAddr addr
  | .UNSHADE => getUnshadeAddr addr

namespace TaskDagGraph

/-! ## Edges -/

def addEndTask (g : TaskDagGraph) (t : TaskId) : TaskDagGraph :=
  { g with endTasks := g.endTasks.insert t }

def delEndTask (g : TaskDagGraph) (t : TaskId) : TaskDagGraph :=
  { g with endTasks := g.endTasks.erase t }

/-- The three lines that each of the six branches of `build_releationship` runs when it
makes an edge: the source stops being an end task, and `dest` becomes its vertical task or
one of its successors. -/
def addEdge (dest : TaskId) (isNeighbor : Bool) (g : TaskDagGraph) (src : TaskSignificance) :
    TaskDagGraph :=
  let g := g.delEndTask src.t
  if !isNeighbor && !src.significance then
    { g with heap := g.heap.setVerticalTask src.t dest }
  else
    { g with heap := g.heap.addSuccessor src.t dest }

/-- `build_releationship`; the second component counts the edges attempted. -/
def buildReleationship (g : TaskDagGraph) (dest : TaskId) (type : InOut) (src : RwTask)
    (isNeighbor : Bool) : TaskDagGraph × Nat :=
  if src.rTasks = [] then
    match src.wTask with
    | some tmp => if type ≠ .INOUT_NONE then (addEdge dest isNeighbor g tmp, 1) else (g, 0)
    | none => (g, 0)
  else if type = .IN then
    match src.wTask with
    | some tmp => (addEdge dest isNeighbor g tmp, 1)
    | none => (g, 0)
  else
    src.rTasks.foldl (fun (s : TaskDagGraph × Nat) r =>
      if type ≠ .INOUT_NONE then (addEdge dest isNeighbor s.1 r, s.2 + 1) else s) (g, 0)

/-! ## Registering a task -/

def addTuplesToVirtualTask (g : TaskDagGraph) (t : TaskId) (addr : Addr) (type : InOut)
    (significance : Bool) : TaskDagGraph :=
  { g with oneVirtualTaskTuples := g.oneVirtualTaskTuples ++ [⟨addr, type, some t, significance⟩] }

/-- One true address in `register_task`, with the running `sum_pre`: record it, look it up,
make the edges. -/
def registerAccess (t : TaskId) (isNeighbor : Bool) (type : InOut) (s : TaskDagGraph × Nat)
    (trueAddr : Addr) : TaskDagGraph × Nat :=
  let g := s.1.addTuplesToVirtualTask t trueAddr type isNeighbor
  match g.addrTask trueAddr with
  | some src =>
    let r := g.buildReleationship t type src isNeighbor
    (r.1, s.2 + r.2)
  | none => (g, s.2)

/-- One tuple in `register_task`: the own address unless it is `NULL`, then the
neighbours. -/
def registerTuple (t : TaskId) (getNeighbor : Nat → Addr → List Addr) (s : TaskDagGraph × Nat)
    (itr : AddrTuple) : TaskDagGraph × Nat :=
  let s := if itr.addr ≠ 0 then
      registerAccess t false itr.type s (getTrueAddr itr.addr itr.areaType)
    else s
  if itr.neighbor = NEIGHBOR_NONE then s
  else
    ((getNeighbor itr.neighbor itr.addr).map fun a => getTrueAddr a itr.areaType).foldl
      (registerAccess t true itr.neighborType) s

def registerTask (g : TaskDagGraph) (t : TaskId) (getNeighbor : Nat → Addr → List Addr)
    (addrs : List AddrTuple) : TaskDagGraph :=
  let g := g.addEndTask t
  let a := g.myAffinity.getAffinityId
  let g := { g with heap := g.heap.setAffinityId t a.1, myAffinity := a.2 }
  let s := addrs.foldl (registerTuple t getNeighbor) (g, 0)
  if s.2 = 0 then { s.1 with needSpawnTasks := s.1.needSpawnTasks ++ [t] } else s.1

/-- What the program hands over for one task. -/
structure TaskSpec where
  junk : Junk
  getNeighbor : Nat → Addr → List Addr
  addrs : List AddrTuple

/-- `new` of an object. -/
def alloc (g : TaskDagGraph) (o : Task) : TaskDagGraph :=
  { g with heap := g.heap.modify g.fresh fun _ => o, fresh := g.fresh + 1 }

/-- `acemesh_task_generator`: a new task object, registered at once. -/
def taskGenerator (g : TaskDagGraph) (spec : TaskSpec) : TaskDagGraph :=
  (g.alloc (Task.newAceMesh spec.junk)).registerTask g.fresh spec.getNeighbor spec.addrs

/-! ## Loops -/

/-- `begin_split_task()`. -/
def beginSplitTask (g : TaskDagGraph) : TaskDagGraph :=
  { g with oneVirtualTaskTuples := [], myAffinity := g.myAffinity.resetAffinityId }

/-- `begin_split_task(loop_info)`, which also reads the global `sche_num_threads`. -/
def beginSplitTaskNamed (g : TaskDagGraph) (scheNumThreads : Nat) : TaskDagGraph :=
  { g with
    oneVirtualTaskTuples := []
    myAffinity := (g.myAffinity.setThreadNum scheNumThreads).resetAffinityId }

/-- The table entry of an address after one more access by `t`. -/
def enterAccess (entry : Option RwTask) (type : InOut) (t : TaskId) (significance : Bool) :
    RwTask :=
  match entry with
  | none =>
    if type.writes then ⟨[], some ⟨t, significance⟩, by simp⟩
    else ⟨[⟨t, significance⟩], none, by simp⟩
  | some e =>
    if type.writes then ⟨[], some ⟨t, significance⟩, by simp⟩
    else ⟨e.rTasks ++ [⟨t, significance⟩], e.wTask, by simp⟩

/-- One tuple in `end_split_task`. -/
def enterTuple (g : TaskDagGraph) (itr : VirtualTuple) : TaskDagGraph :=
  match itr.t with
  | none => g
  | some t =>
    if itr.type = .INOUT_NONE ∨ itr.addr = 0 then g
    else
      { g with
        addrTask := Function.update g.addrTask itr.addr
          (some (enterAccess (g.addrTask itr.addr) itr.type t itr.significance)) }

def endSplitTask (g : TaskDagGraph) : TaskDagGraph :=
  g.oneVirtualTaskTuples.foldl enterTuple g

/-! ## Closing the graph -/

/-- `end_construct_dag`. -/
def endConstructDag (g : TaskDagGraph) : TaskDagGraph :=
  let endTask := g.fresh
  let g := { g.alloc Task.newEmpty with endTask := some endTask }
  { g with heap := g.endTasks.foldl (fun h t => h.addEndSuccessor t endTask) g.heap }

/-- `reset_task_graph`. -/
def resetTaskGraph (g : TaskDagGraph) : TaskDagGraph :=
  { g with needSpawnTasks := [], addrTask := fun _ => none, endTasks := [] }

/-- The calls that build a graph. -/
inductive BuildCall
  | registerTask (spec : TaskSpec)
  | beginSplitTask
  | beginSplitTaskNamed (scheNumThreads : Nat)
  | endSplitTask

def build (g : TaskDagGraph) : BuildCall → TaskDagGraph
  | .registerTask spec => g.taskGenerator spec
  | .beginSplitTask => g.beginSplitTask
  | .beginSplitTaskNamed n => g.beginSplitTaskNamed n
  | .endSplitTask => g.endSplitTask

def buildAll (g : TaskDagGraph) (calls : List BuildCall) : TaskDagGraph := calls.foldl build g

end TaskDagGraph

end AceMesh
