import AceMesh.Lib.Suspend
import AceMesh.Scheduler

/-!
# The three strategies for tasks that may block

`scheduler.cpp` and `aceMesh_task::execute` again, with the code that `NOT_MPI_STRATEGY`,
`EXTRA_THREAD` and `BLOCKING_QUEUE` switch on and off. The body of a `BLOCKING_TASK` may leave
the flag `suspend` of its task set; `execute` then queues the task once more and returns
before the loop over the successors. With `EXTRA_THREAD` blocking tasks go to the queue of a
thread of their own, which runs `mpi_worker_kernel_func`; with `BLOCKING_QUEUE` every
scheduler has a second queue for the suspended ones.

The private queue is the stack of `STATIC_STACK_STRATEGY`, the other queues are first in,
first out. In the `EXTRA_THREAD` build of the makefile `mpi_queue` is a `tbb::concurrent_queue`,
of which nothing is used but that a pop takes one task that is there. The granularity of the
steps is that of `Runtime.threadStep`.
-/

namespace AceMesh.MpiStrategy

open Suspend (Act)

/-- The builds that the makefile knows. -/
inductive Strategy
  | notMpi
  | extraThread
  | blockingQueue
  deriving DecidableEq, Repr

/-- The scheduler threads, of which `worker 0` is the main thread, and `mpi_thread`. -/
inductive Thread (m : Nat)
  | worker (i : Fin (m + 1))
  | mpi
  deriving DecidableEq, Repr

abbrev Thread.main {m : Nat} : Thread m := .worker ⟨0, Nat.zero_lt_succ m⟩

/-- `private_queue` and `blocking_queue` of the scheduler of a thread, and `mpi_queue`. -/
inductive Queue (m : Nat)
  | own (i : Thread m)
  | blocking (i : Thread m)
  | mpi
  deriving DecidableEq, Repr

/-- The one thread that pops the queue. -/
def Queue.owner {m : Nat} : Queue m → Thread m
  | .own i | .blocking i => i
  | .mpi => .mpi

def NUM_MPI : Nat := 50

/-- Where a thread stands in its kernel function and in the `execute` it calls. -/
inductive Pc
  /-- `t == NULL`: the next thing is `get_next_task`. -/
  | next
  /-- In `get_next_task`, `num_mpi` has been found to be `NUM_MPI`. -/
  | clear
  /-- In `get_next_task`, before `blocking_queue.try_pop`. -/
  | poll
  /-- In `get_next_task`, before `private_queue.try_pop`. -/
  | pop
  /-- `t` is held and about to be executed. -/
  | hold (t : TaskId)
  | body (t : TaskId)
  /-- In `aceMesh_task::execute`, before the reused flag is looked at. -/
  | restore (t : TaskId)
  /-- Before the test of the task type and the flag `suspend`. -/
  | test (t : TaskId)
  /-- In the loop over `successor_tasks`, at index `k`. -/
  | loop (t : TaskId) (k : Nat)
  /-- Successor `k` has been released and is about to be pushed. -/
  | push (t : TaskId) (k : Nat) (succ : TaskId)
  /-- At the vertical task. -/
  | vert (t : TaskId)
  /-- `execute` has returned. -/
  | ret (t : TaskId) (next : Option TaskId)
  deriving DecidableEq, Repr

/-- The runtime while one graph is executed. -/
structure Kernels (m : Nat) where
  heap : Heap
  /-- `get_task_type() == BLOCKING_TASK`. -/
  blocking : TaskId → Bool
  /-- `get_suspend()`; builds with `NOT_MPI_STRATEGY` have no such field. -/
  suspend : TaskId → Bool
  queue : Queue m → List TaskId
  numMpi : Nat
  pc : Thread m → Pc
  main : MainPc
  log : List (Suspend.Event TaskId (Thread m))

namespace Kernels

variable {m : Nat}

def setHeap (s : Kernels m) (h : Heap) : Kernels m := { s with heap := h }

def setPc (s : Kernels m) (i : Thread m) (p : Pc) : Kernels m :=
  { s with pc := Function.update s.pc i p }

theorem setPc_self {s : Kernels m} {i : Thread m} {p : Pc} (h : s.pc i = p) :
    s.setPc i p = s := by
  unfold setPc
  rw [← h, Function.update_eq_self]

def setNumMpi (s : Kernels m) (n : Nat) : Kernels m := { s with numMpi := n }

def setSuspend (s : Kernels m) (t : TaskId) (mode : Bool) : Kernels m :=
  { s with suspend := Function.update s.suspend t mode }

def record (s : Kernels m) (i : Thread m) (t : TaskId) (act : Act TaskId) : Kernels m :=
  { s with log := s.log ++ [⟨i, t, act⟩] }

def setQueue (s : Kernels m) (q : Queue m) (l : List TaskId) : Kernels m :=
  { s with queue := Function.update s.queue q l }

/-- `push` on one of the queues. -/
def enqueue (s : Kernels m) (q : Queue m) (t : TaskId) : Kernels m :=
  s.setQueue q <|
    match q with
    | .own _ => t :: s.queue q
    | _ => s.queue q ++ [t]

/-- The test in `execute` that leads to one of the two re-queueing branches. -/
def isSuspended (b : Strategy) (s : Kernels m) (t : TaskId) : Bool :=
  b != .notMpi && s.blocking t && s.suspend t

theorem isSuspended_iff {b : Strategy} {s : Kernels m} {t : TaskId} :
    s.isSuspended b t = true ↔
      b ≠ .notMpi ∧ s.blocking t = true ∧ s.suspend t = true := by
  unfold isSuspended
  rw [Bool.and_eq_true, Bool.and_eq_true, bne_iff_ne, and_assoc]

theorem isSuspended_of_eq {b : Strategy} {s s' : Kernels m} {t : TaskId}
    (hblocking : s'.blocking t = s.blocking t) (hsuspend : s'.suspend t = s.suspend t) :
    s'.isSuspended b t = s.isSuspended b t := by
  unfold isSuspended
  rw [hblocking, hsuspend]

theorem isSuspended_congr {s s' : Kernels m} (hblocking : s'.blocking = s.blocking)
    (hsuspend : s'.suspend = s.suspend) (b : Strategy) :
    s'.isSuspended b = s.isSuspended b := by
  funext t
  exact isSuspended_of_eq (congrFun hblocking t) (congrFun hsuspend t)

/-- The flag of one task says nothing about another one. -/
theorem isSuspended_setSuspend {s : Kernels m} {t u : TaskId} (hu : u ≠ t) (mode : Bool)
    (b : Strategy) : (s.setSuspend t mode).isSuspended b u = s.isSuspended b u := by
  have hsuspend : (s.setSuspend t mode).suspend u = s.suspend u := Function.update_of_ne hu ..
  exact isSuspended_of_eq rfl hsuspend

/-! ## Spawning -/

/-- The queue that `spawn_to_id` and `init_spawn` choose, called on the scheduler of thread
`i`. `none` is an assertion or an index outside of `schedulers`. -/
def spawnToId (b : Strategy) (s : Kernels m) (i : Thread m) (t : TaskId) : Option (Queue m) :=
  let myId := (s.heap t).affinityId
  let blockingFlag := b != .notMpi && s.blocking t
  if -1 < myId then
    if blockingFlag && b == .extraThread then some .mpi
    else if h : myId.toNat < m + 1 then some (.own (.worker ⟨myId.toNat, h⟩)) else none
  else if myId = FOLLOW_AFFINITY then
    if blockingFlag && b == .extraThread then some .mpi else some (.own i)
  else if myId = NO_SET_AFFINITY then
    if blockingFlag then
      if b = .extraThread then some .mpi else some (.own i)
    else none
  else none

/-- The queue for a successor that has been released: with `EXTRA_THREAD` blocking tasks are
handed to `mpi_spawn`, all others to `task::spawn`. -/
def spawnSuccessor (b : Strategy) (s : Kernels m) (i : Thread m) (t : TaskId) :
    Option (Queue m) :=
  if b = .extraThread ∧ s.blocking t = true then some .mpi else s.spawnToId b i t

/-- The queue for a suspended task: `mpi_spawn` or `suspend_spawn`. -/
def suspendQueue (b : Strategy) (i : Thread m) : Queue m :=
  if b = .extraThread then .mpi else .blocking i

/-! ## Steps -/

/-- One atomic decrement of the counter of `succ`, on the way through the edges of `t`. -/
def walkEdge (s : Kernels m) (i : Thread m) (t succ : TaskId) : Kernels m :=
  (s.setHeap (s.heap.decrementRefCount succ)).record i t (.walk succ)

/-- Whether the kernel of thread `i` deletes the task it has executed: `NOT_MPI_STRATEGY` in
both kernels, `BLOCKING_QUEUE` in that of the workers, `EXTRA_THREAD` in that of the MPI
thread. -/
def deletes (b : Strategy) (i : Thread m) (reused blocking suspend : Bool) : Bool :=
  match b, i with
  | .notMpi, _ => !reused
  | .blockingQueue, .worker i => i.val != 0 && !reused && !(blocking && suspend)
  | .blockingQueue, .mpi => false
  | .extraThread, .worker _ => false
  | .extraThread, .mpi => !reused && blocking && !suspend

/-- `try_pop`; `hit` says whether it succeeds on a queue that is not empty. -/
def tryPop (s : Kernels m) (i : Thread m) (q : Queue m) (hit : Bool) (miss : Pc) : Kernels m :=
  match s.queue q with
  | t :: rest => if hit then (s.setQueue q rest).setPc i (.hold t) else s.setPc i miss
  | [] => s.setPc i miss

/-- `mpi_worker_kernel_func` restores the counter of the task that `execute` has returned. -/
def restoreReturned (h : Heap) (i : Thread m) (v : Option TaskId) : Heap :=
  match i, v with
  | .mpi, some succ => h.restoreRefCount succ
  | _, _ => h

/-- The task that the next turn begins with. -/
def afterReturn : Option TaskId → Pc
  | some succ => .hold succ
  | none => .next

/-- The end of a turn, after `execute` has returned `v` for the task `t`. -/
def retire (b : Strategy) (s : Kernels m) (i : Thread m) (t : TaskId) (v : Option TaskId) :
    Kernels m :=
  let h := restoreReturned s.heap i v
  if deletes b i (s.heap t).reused (s.blocking t) (s.suspend t) then
    ((s.setHeap (h.delete t)).record i t .delete).setPc i (afterReturn v)
  else (s.setHeap h).setPc i (afterReturn v)

/-- One step of thread `i`. `mode` is what the body leaves in the flag `suspend`. -/
def threadStep (b : Strategy) (s : Kernels m) (i : Thread m) (hit mode : Bool) :
    Option (Kernels m) :=
  match s.pc i with
  | .next =>
    match b, i with
    | .extraThread, .mpi => some (s.tryPop i .mpi hit .next)
    | .blockingQueue, _ =>
      some ((s.setNumMpi (s.numMpi + 1)).setPc i (if s.numMpi = NUM_MPI then .clear else .pop))
    | _, _ => some (s.setPc i .pop)
  | .clear => some ((s.setNumMpi 0).setPc i .poll)
  | .poll => some (s.tryPop i (.blocking i) hit .pop)
  | .pop => some (s.tryPop i (.own i) hit .next)
  | .hold t =>
    if b = .extraThread ∧ i ≠ .mpi ∧ s.blocking t = true then
      some ((s.enqueue .mpi t).setPc i .next)
    else if (s.heap t).isAceMesh then some ((s.setPc i (.body t)).record i t .start)
    else some (s.setPc i (.ret t none))
  | .body t =>
    let s₁ := s.setSuspend t mode
    some ((s₁.setPc i (.restore t)).record i t (.finish (s₁.isSuspended b t)))
  | .restore t =>
    some ((s.setHeap (if (s.heap t).reused then s.heap.restoreRefCount t else s.heap)).setPc i
      (.test t))
  | .test t =>
    if s.isSuspended b t then
      some (((s.enqueue (suspendQueue b i) t).setPc i (.ret t none)).record i t .requeue)
    else some (s.setPc i (.loop t 0))
  | .loop t k =>
    match (s.heap t).successorTasks[k]? with
    | some succ =>
      if (s.heap succ).refCount - 1 = 0 then
        some ((s.walkEdge i t succ).setPc i (.push t k succ))
      else some ((s.walkEdge i t succ).setPc i (.loop t (k + 1)))
    | none => some (s.setPc i (.vert t))
  | .push t k succ =>
    (s.spawnSuccessor b i succ).map fun q => (s.enqueue q succ).setPc i (.loop t (k + 1))
  | .vert t =>
    match (s.heap t).verticalTask with
    | some succ =>
      if (s.heap succ).refCount - 1 = 0 then
        some ((s.walkEdge i t succ).setPc i (.ret t (some succ)))
      else some ((s.walkEdge i t succ).setPc i (.ret t none))
    | none => some (s.setPc i (.ret t none))
  | .ret t v => some (s.retire b i t v)

/-- Whether a step from the first to the second position ends a turn of the loop. -/
def endsTurn : Pc → Pc → Bool
  | _, .next => true
  | .ret _ _, _ => true
  | _, _ => false

/-- One step of the main thread. -/
def mainStep (b : Strategy) (s : Kernels m) (hit mode : Bool) : Option (Kernels m) :=
  match s.main with
  | .prog => none
  | .spawn e (t :: roots) =>
    (s.spawnToId b .main t).map fun q => { s.enqueue q t with main := .spawn e roots }
  | .spawn e [] => some { s.setPc .main .next with main := .test e }
  | .test e => some { s with main := if 1 < (s.heap e).refCount then .run e else .left e }
  | .run e =>
    (s.threadStep b .main hit mode).map fun s' =>
      if endsTurn (s.pc .main) (s'.pc .main) then { s' with main := .test e } else s'
  | .left e =>
    if (s.heap e).reused then some { s with main := .returned e }
    else some { (s.setHeap (s.heap.delete e)).record .main e .delete with main := .returned e }
  | .returned e =>
    some { s with
      heap := if (s.heap e).reused then s.heap.restoreRefCount e else s.heap
      main := .prog }

/-- One step of one thread. Without `EXTRA_THREAD` there is no MPI thread. -/
def step (b : Strategy) (s : Kernels m) (i : Thread m) (hit mode : Bool) : Option (Kernels m) :=
  match i with
  | .worker j => if j.val = 0 then s.mainStep b hit mode else s.threadStep b i hit mode
  | .mpi => if b = .extraThread then s.threadStep b .mpi hit mode else none

/-- The runtime with nothing to do, and a graph that is ready to be spawned. -/
def initial (h : Heap) (blocking suspend : TaskId → Bool) : Kernels m where
  heap := h
  blocking := blocking
  suspend := suspend
  queue := fun _ => []
  numMpi := 0
  pc := fun _ => .next
  main := .prog
  log := []

/-- `task_dag_graph::spawn`, up to the first root. -/
def spawn (s : Kernels m) (endTask : TaskId) (needSpawnTasks : List TaskId) : Kernels m :=
  { s.setHeap (s.heap.incrementRefCount endTask) with
    main := .spawn endTask needSpawnTasks
    log := [] }

/-- Any number of steps of any threads, in any order. -/
def Steps (b : Strategy) : Kernels m → Kernels m → Prop :=
  Relation.ReflTransGen fun s s' => ∃ i hit mode, s.step b i hit mode = some s'

/-- The steps of one schedule. -/
def runSchedule (b : Strategy) (s : Kernels m) :
    List (Thread m × Bool × Bool) → Option (Kernels m)
  | [] => some s
  | (i, hit, mode) :: rest => (s.step b i hit mode).bind fun s => s.runSchedule b rest

theorem isRun_runSchedule (b : Strategy) :
    IsRun (fun (s : Kernels m) a => s.step b a.1 a.2.1 a.2.2) (runSchedule b) :=
  ⟨fun _ => rfl, fun _ _ _ => rfl⟩

theorem steps_of_runSchedule {b : Strategy} {s s' : Kernels m}
    {schedule : List (Thread m × Bool × Bool)} (h : s.runSchedule b schedule = some s') :
    s.Steps b s' :=
  (isRun_runSchedule b).path (fun _ a _ hstep => ⟨a.1, a.2.1, a.2.2, hstep⟩) h

end Kernels

end AceMesh.MpiStrategy
