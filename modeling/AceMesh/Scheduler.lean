import AceMesh.Lib.Runs
import AceMesh.TaskDagGraph
import Mathlib.Algebra.BigOperators.Fin
import Mathlib.Data.Fintype.BigOperators
import Mathlib.Logic.Relation

/-!
# The scheduler

`scheduler.cpp`: each of `m + 1` threads has a private queue; thread `0` is the main thread.
A worker takes a task from its queue, runs the body, walks the successor list of the task
and its vertical task, decrements the counter of each and pushes a successor whose counter
has become zero; a vertical task that is released this way is not pushed but returned and
run next. The main thread does the same while it waits for the end task.

Threads interleave at every access to a shared object: one step is one `try_pop`, one
`push`, one atomic decrement, the start or the end of a body, or one test of the end task's
counter. `try_pop` may fail although the queue is not empty. `log` records what has
happened in the current round; no step reads it. A deleted object keeps its fields, and what
uses it goes on with them; `Session.uses_deleted_iff` says which step does.
-/

namespace AceMesh

open TaskDagGraph

/-! ## Threads -/

/-- Where a thread stands in the loop of `worker_kernel_func` and in the `execute` it calls. -/
inductive Pc
  /-- `t == NULL`: the next thing is `get_next_task`. -/
  | next
  /-- `t` is held and about to be executed. -/
  | hold (t : TaskId)
  | body (t : TaskId)
  /-- In `aceMesh_task::execute`, before the reused flag is looked at. -/
  | restore (t : TaskId)
  /-- In the loop over `successor_tasks`, at index `k`. -/
  | loop (t : TaskId) (k : Nat)
  /-- Successor `k` has been released and is about to be pushed. -/
  | push (t : TaskId) (k : Nat) (succ : TaskId)
  /-- At the vertical task. -/
  | vert (t : TaskId)
  /-- `execute` has returned. -/
  | ret (t : TaskId) (next : Option TaskId)
  deriving DecidableEq, Repr

/-- Where the main thread stands: in the program, in `spawn` with roots left to push, in
`main_kernel_func` at the test of the loop or inside it, or behind the loop. -/
inductive MainPc
  | prog
  | spawn (endTask : TaskId) (roots : List TaskId)
  | test (endTask : TaskId)
  | run (endTask : TaskId)
  | left (endTask : TaskId)
  | returned (endTask : TaskId)
  deriving DecidableEq, Repr

/-- What a round leaves in the log: a body starts or finishes, an edge out of a task has been
walked. -/
inductive Event
  | start (t : TaskId)
  | finish (t : TaskId)
  | walk (t : TaskId)
  deriving DecidableEq, Repr

structure Runtime (m : Nat) where
  graph : TaskDagGraph
  queue : Fin (m + 1) → List TaskId
  pc : Fin (m + 1) → Pc
  main : MainPc
  log : List Event

namespace Runtime

variable {m : Nat}

abbrev heap (r : Runtime m) : Heap := r.graph.heap

def setHeap (r : Runtime m) (h : Heap) : Runtime m :=
  { r with graph := { r.graph with heap := h } }

def setPc (r : Runtime m) (i : Fin (m + 1)) (p : Pc) : Runtime m :=
  { r with pc := Function.update r.pc i p }

def localSpawn (r : Runtime m) (i : Fin (m + 1)) (t : TaskId) : Runtime m :=
  { r with queue := Function.update r.queue i (t :: r.queue i) }

def record (r : Runtime m) (e : Event) : Runtime m := { r with log := r.log ++ [e] }

/-- `spawn_to_id` and `init_spawn`, called on the scheduler of thread `i`. `none` is an
assertion or an index outside of `schedulers`. -/
def spawnToId (r : Runtime m) (i : Fin (m + 1)) (t : TaskId) : Option (Runtime m) :=
  let myId := (r.heap t).affinityId
  if -1 < myId then
    if h : myId.toNat < m + 1 then some (r.localSpawn ⟨myId.toNat, h⟩ t) else none
  else if myId = FOLLOW_AFFINITY then some (r.localSpawn i t)
  else none

/-! ## Steps -/

/-- One atomic decrement of the counter of `succ`, on the way through the edges of `t`. -/
def walkEdge (r : Runtime m) (t succ : TaskId) : Runtime m :=
  (r.setHeap (r.heap.decrementRefCount succ)).record (.walk t)

/-- One step of thread `i`. `hit` says whether a `try_pop` on a queue that is not empty
succeeds. -/
def threadStep (r : Runtime m) (i : Fin (m + 1)) (hit : Bool) : Option (Runtime m) :=
  match r.pc i with
  | .next =>
    match r.queue i with
    | t :: rest =>
      if hit then some { r.setPc i (.hold t) with queue := Function.update r.queue i rest }
      else some r
    | [] => some r
  | .hold t =>
    if (r.heap t).isAceMesh then some ((r.setPc i (.body t)).record (.start t))
    else some (r.setPc i (.ret t none))
  | .body t => some ((r.setPc i (.restore t)).record (.finish t))
  | .restore t =>
    some ((r.setHeap (if (r.heap t).reused then r.heap.restoreRefCount t else r.heap)).setPc i
      (.loop t 0))
  | .loop t k =>
    match (r.heap t).successorTasks[k]? with
    | some succ =>
      if (r.heap succ).refCount - 1 = 0 then some ((r.walkEdge t succ).setPc i (.push t k succ))
      else some ((r.walkEdge t succ).setPc i (.loop t (k + 1)))
    | none => some (r.setPc i (.vert t))
  | .push t k succ => (r.spawnToId i succ).map fun r => r.setPc i (.loop t (k + 1))
  | .vert t =>
    match (r.heap t).verticalTask with
    | some succ =>
      if (r.heap succ).refCount - 1 = 0 then
        some ((r.walkEdge t succ).setPc i (.ret t (some succ)))
      else some ((r.walkEdge t succ).setPc i (.ret t none))
    | none => some (r.setPc i (.ret t none))
  | .ret t v =>
    some ((r.setHeap (if (r.heap t).reused then r.heap else r.heap.delete t)).setPc i
      (match v with
       | some succ => .hold succ
       | none => .next))

/-- Whether a step from the first to the second position ends a turn of the loop. -/
def endsTurn : Pc → Pc → Bool
  | .next, .next => true
  | .ret _ _, _ => true
  | _, _ => false

/-- One step of the main thread. -/
def mainStep (r : Runtime m) (hit : Bool) : Option (Runtime m) :=
  match r.main with
  | .prog => none
  | .spawn e (t :: roots) => (r.spawnToId 0 t).map fun r => { r with main := .spawn e roots }
  | .spawn e [] => some { r.setPc 0 .next with main := .test e }
  | .test e => some { r with main := if 1 < (r.heap e).refCount then .run e else .left e }
  | .run e =>
    (r.threadStep 0 hit).map fun r' =>
      if endsTurn (r.pc 0) (r'.pc 0) then { r' with main := .test e } else r'
  | .left e =>
    some { r.setHeap (if (r.heap e).reused then r.heap else r.heap.delete e) with
      main := .returned e }
  | .returned e =>
    some { r with
      graph := ({ r.graph with
        heap := if (r.heap e).reused then r.heap.restoreRefCount e else r.heap }).resetTaskGraph
      main := .prog }

/-- One step of one thread. -/
def step (r : Runtime m) (i : Fin (m + 1)) (hit : Bool) : Option (Runtime m) :=
  if i = 0 then r.mainStep hit else r.threadStep i hit

/-! ## What a step can do -/

/-- The steps of thread `i`, branch by branch. -/
inductive ThreadStep (r : Runtime m) (i : Fin (m + 1)) : Runtime m → Prop
  | wait (pc : r.pc i = .next) : ThreadStep r i r
  | pop {t : TaskId} {rest : List TaskId} (pc : r.pc i = .next) (queue : r.queue i = t :: rest) :
      ThreadStep r i { r.setPc i (.hold t) with queue := Function.update r.queue i rest }
  | start {t : TaskId} (pc : r.pc i = .hold t) (kind : (r.heap t).isAceMesh = true) :
      ThreadStep r i ((r.setPc i (.body t)).record (.start t))
  | skip {t : TaskId} (pc : r.pc i = .hold t) (kind : (r.heap t).isAceMesh = false) :
      ThreadStep r i (r.setPc i (.ret t none))
  | finish {t : TaskId} (pc : r.pc i = .body t) :
      ThreadStep r i ((r.setPc i (.restore t)).record (.finish t))
  | restore {t : TaskId} (pc : r.pc i = .restore t) :
      ThreadStep r i ((r.setHeap (if (r.heap t).reused then r.heap.restoreRefCount t
        else r.heap)).setPc i (.loop t 0))
  | release {t succ : TaskId} {k : Nat} (pc : r.pc i = .loop t k)
      (next : (r.heap t).successorTasks[k]? = some succ)
      (zero : (r.heap succ).refCount - 1 = 0) :
      ThreadStep r i ((r.walkEdge t succ).setPc i (.push t k succ))
  | walk {t succ : TaskId} {k : Nat} (pc : r.pc i = .loop t k)
      (next : (r.heap t).successorTasks[k]? = some succ)
      (nonzero : (r.heap succ).refCount - 1 ≠ 0) :
      ThreadStep r i ((r.walkEdge t succ).setPc i (.loop t (k + 1)))
  | arrive {t : TaskId} {k : Nat} (pc : r.pc i = .loop t k)
      (last : (r.heap t).successorTasks[k]? = none) : ThreadStep r i (r.setPc i (.vert t))
  | push {t succ : TaskId} {k : Nat} {r₁ : Runtime m} (pc : r.pc i = .push t k succ)
      (spawned : r.spawnToId i succ = some r₁) : ThreadStep r i (r₁.setPc i (.loop t (k + 1)))
  | releaseVertical {t succ : TaskId} (pc : r.pc i = .vert t)
      (next : (r.heap t).verticalTask = some succ) (zero : (r.heap succ).refCount - 1 = 0) :
      ThreadStep r i ((r.walkEdge t succ).setPc i (.ret t (some succ)))
  | walkVertical {t succ : TaskId} (pc : r.pc i = .vert t)
      (next : (r.heap t).verticalTask = some succ)
      (nonzero : (r.heap succ).refCount - 1 ≠ 0) :
      ThreadStep r i ((r.walkEdge t succ).setPc i (.ret t none))
  | back {t : TaskId} (pc : r.pc i = .vert t) (next : (r.heap t).verticalTask = none) :
      ThreadStep r i (r.setPc i (.ret t none))
  | leave {t : TaskId} (pc : r.pc i = .ret t none) :
      ThreadStep r i ((r.setHeap (if (r.heap t).reused then r.heap else r.heap.delete t)).setPc i
        .next)
  | leaveFor {t succ : TaskId} (pc : r.pc i = .ret t (some succ)) :
      ThreadStep r i ((r.setHeap (if (r.heap t).reused then r.heap else r.heap.delete t)).setPc i
        (.hold succ))

theorem threadStep_cases {r r' : Runtime m} {i : Fin (m + 1)} {hit : Bool}
    (h : r.threadStep i hit = some r') : ThreadStep r i r' := by
  unfold threadStep at h
  cases hpc : r.pc i with
  | next =>
      simp only [hpc] at h
      cases hq : r.queue i with
      | nil =>
          simp only [hq, Option.some.injEq] at h
          exact h ▸ .wait hpc
      | cons t rest =>
          simp only [hq] at h
          split at h
          · cases h
            exact .pop hpc hq
          · cases h
            exact .wait hpc
  | hold t =>
      simp only [hpc] at h
      split at h
      · rename_i hkind
        cases h
        exact .start hpc hkind
      · rename_i hkind
        cases h
        exact .skip hpc (by simpa using hkind)
  | body t =>
      simp only [hpc] at h
      cases h
      exact .finish hpc
  | restore t =>
      simp only [hpc] at h
      cases h
      exact .restore hpc
  | loop t k =>
      simp only [hpc] at h
      cases hs : (r.heap t).successorTasks[k]? with
      | some succ =>
          simp only [hs] at h
          split at h
          · rename_i hzero
            cases h
            exact .release hpc hs hzero
          · rename_i hzero
            cases h
            exact .walk hpc hs hzero
      | none =>
          simp only [hs] at h
          cases h
          exact .arrive hpc hs
  | push t k succ =>
      simp only [hpc] at h
      obtain ⟨r₁, hr₁, rfl⟩ := Option.map_eq_some_iff.mp h
      exact .push hpc hr₁
  | vert t =>
      simp only [hpc] at h
      cases hv : (r.heap t).verticalTask with
      | some succ =>
          simp only [hv] at h
          split at h
          · rename_i hzero
            cases h
            exact .releaseVertical hpc hv hzero
          · rename_i hzero
            cases h
            exact .walkVertical hpc hv hzero
      | none =>
          simp only [hv] at h
          cases h
          exact .back hpc hv
  | ret t v =>
      simp only [hpc] at h
      cases h
      cases v with
      | none => exact .leave hpc
      | some succ => exact .leaveFor hpc

/-- The steps of the main thread. -/
inductive MainStep (r : Runtime m) : Runtime m → Prop
  | root {e t : TaskId} {roots : List TaskId} {r₁ : Runtime m}
      (main : r.main = .spawn e (t :: roots)) (spawned : r.spawnToId 0 t = some r₁) :
      MainStep r { r₁ with main := .spawn e roots }
  | enter {e : TaskId} (main : r.main = .spawn e []) :
      MainStep r { r.setPc 0 .next with main := .test e }
  | test {e : TaskId} (main : r.main = .test e) :
      MainStep r { r with main := if 1 < (r.heap e).refCount then .run e else .left e }
  | run {e : TaskId} {r₁ : Runtime m} (main : r.main = .run e) (turn : ThreadStep r 0 r₁)
      (inside : endsTurn (r.pc 0) (r₁.pc 0) = false) : MainStep r r₁
  | turnEnd {e : TaskId} {r₁ : Runtime m} (main : r.main = .run e) (turn : ThreadStep r 0 r₁)
      (ends : endsTurn (r.pc 0) (r₁.pc 0) = true) : MainStep r { r₁ with main := .test e }
  | leave {e : TaskId} (main : r.main = .left e) :
      MainStep r { r.setHeap (if (r.heap e).reused then r.heap else r.heap.delete e) with
        main := .returned e }
  | back {e : TaskId} (main : r.main = .returned e) :
      MainStep r { r with
        graph := ({ r.graph with
          heap := if (r.heap e).reused then r.heap.restoreRefCount e else r.heap }).resetTaskGraph
        main := .prog }

theorem mainStep_cases {r r' : Runtime m} {hit : Bool} (h : r.mainStep hit = some r') :
    MainStep r r' := by
  unfold mainStep at h
  cases hm : r.main with
  | prog =>
      rw [hm] at h
      cases h
  | spawn e roots =>
      rw [hm] at h
      cases roots with
      | nil =>
          cases h
          exact .enter hm
      | cons t roots =>
          obtain ⟨r₁, hr₁, rfl⟩ := Option.map_eq_some_iff.mp h
          exact .root hm hr₁
  | test e =>
      rw [hm] at h
      cases h
      exact .test hm
  | run e =>
      rw [hm] at h
      obtain ⟨r₁, hr₁, hr'⟩ := Option.map_eq_some_iff.mp h
      split at hr'
      · rename_i hends
        cases hr'
        exact .turnEnd hm (threadStep_cases hr₁) hends
      · rename_i hends
        cases hr'
        exact .run hm (threadStep_cases hr₁) (by simpa using hends)
  | left e =>
      rw [hm] at h
      cases h
      exact .leave hm
  | returned e =>
      rw [hm] at h
      cases h
      exact .back hm

theorem step_cases {r r' : Runtime m} {i : Fin (m + 1)} {hit : Bool}
    (h : r.step i hit = some r') : i = 0 ∧ MainStep r r' ∨ i ≠ 0 ∧ ThreadStep r i r' := by
  unfold step at h
  split at h
  · exact Or.inl ⟨by assumption, mainStep_cases h⟩
  · exact Or.inr ⟨by assumption, threadStep_cases h⟩

/-- Whatever the affinity, a spawn pushes the task on one queue. -/
theorem spawnToId_localSpawn {r r' : Runtime m} {i : Fin (m + 1)} {t : TaskId}
    (h : r.spawnToId i t = some r') : ∃ j, r' = r.localSpawn j t := by
  simp only [spawnToId] at h
  split at h
  · split at h
    · exact ⟨_, (Option.some.inj h).symm⟩
    · simp at h
  · split at h
    · exact ⟨i, (Option.some.inj h).symm⟩
    · simp at h

theorem ThreadStep.reuse {r r' : Runtime m} {i : Fin (m + 1)} (h : ThreadStep r i r') :
    r'.graph.reuse = r.graph.reuse := by
  cases h with
  | push _ spawned =>
      obtain ⟨j, rfl⟩ := spawnToId_localSpawn spawned
      rfl
  | _ => rfl

/-- No step touches the numbers of graphs. -/
theorem step_reuse {r r' : Runtime m} {i : Fin (m + 1)} {hit : Bool}
    (h : r.step i hit = some r') : r'.graph.reuse = r.graph.reuse := by
  obtain ⟨-, hmain⟩ | ⟨-, hthread⟩ := step_cases h
  · cases hmain with
    | root _ spawned =>
        obtain ⟨j, rfl⟩ := spawnToId_localSpawn spawned
        rfl
    | run _ turn _ => exact turn.reuse
    | turnEnd _ turn _ => exact turn.reuse
    | _ => rfl
  · exact hthread.reuse

/-! ## Runs -/

/-- `task_dag_graph::spawn`, up to the first root. It has no result where there is no end task
or the end task has been deleted. -/
def spawn (r : Runtime m) : Option (Runtime m) :=
  r.graph.endTask.bind fun e =>
    if (r.heap e).deleted then none
    else some { r.setHeap (r.heap.incrementRefCount e) with
      main := .spawn e r.graph.needSpawnTasks
      log := [] }

theorem spawn_eq_some_iff {r r' : Runtime m} : r.spawn = some r' ↔
    ∃ e, r.graph.endTask = some e ∧ (r.heap e).deleted = false ∧
      r' = { r.setHeap (r.heap.incrementRefCount e) with
        main := .spawn e r.graph.needSpawnTasks
        log := [] } := by
  constructor
  · intro h
    obtain ⟨e, hend, hrest⟩ := Option.bind_eq_some_iff.mp h
    by_cases hdeleted : (r.heap e).deleted = true
    · rw [if_pos hdeleted] at hrest
      cases hrest
    · rw [if_neg hdeleted] at hrest
      exact ⟨e, hend, Bool.eq_false_of_not_eq_true hdeleted, (Option.some.inj hrest).symm⟩
  · rintro ⟨e, hend, hdeleted, rfl⟩
    unfold spawn
    rw [hend, Option.bind_some, if_neg (by rw [hdeleted]; exact Bool.false_ne_true)]

/-- Any number of steps of any threads, in any order. -/
def Steps : Runtime m → Runtime m → Prop :=
  Relation.ReflTransGen fun r r' => ∃ i hit, r.step i hit = some r'

/-- The steps of one schedule. -/
def runSchedule (r : Runtime m) : List (Fin (m + 1) × Bool) → Option (Runtime m)
  | [] => some r
  | (i, hit) :: rest => (r.step i hit).bind fun r => r.runSchedule rest

theorem isRun_runSchedule : IsRun (fun (r : Runtime m) a => r.step a.1 a.2) runSchedule :=
  ⟨fun _ => rfl, fun _ _ _ => rfl⟩

theorem steps_of_runSchedule {r r' : Runtime m} {schedule : List (Fin (m + 1) × Bool)}
    (h : r.runSchedule schedule = some r') : r.Steps r' :=
  isRun_runSchedule.path (fun _ a _ hstep => ⟨a.1, a.2, hstep⟩) h

/-- The runtime at the start of the program, with a graph that is ready to be spawned. -/
def initial (g : TaskDagGraph) : Runtime m where
  graph := g
  queue := fun _ => []
  pc := fun _ => .next
  main := .prog
  log := []

/-! ## What a state records -/

def starts (r : Runtime m) (t : TaskId) : Nat := r.log.count (.start t)

def finishes (r : Runtime m) (t : TaskId) : Nat := r.log.count (.finish t)

/-- How many edges out of `t` have been walked. -/
def walked (r : Runtime m) (t : TaskId) : Nat := r.log.count (.walk t)

/-- The edges out of a task. -/
abbrev outs (r : Runtime m) (t : TaskId) : List TaskId := (r.heap t).outs

end Runtime

/-- The released task a thread holds and has not started. -/
def Pc.hand : Pc → Option TaskId
  | .hold t => some t
  | .push _ _ succ => some succ
  | .ret _ v => v
  | _ => none

/-- The started task of a thread, with the number of edges it has walked. -/
def Pc.stage (h : Heap) : Pc → Option (TaskId × Nat)
  | .body t => some (t, 0)
  | .restore t => some (t, 0)
  | .loop t k => some (t, k)
  | .push t k _ => some (t, k + 1)
  | .vert t => some (t, (h t).successorTasks.length)
  | _ => none

/-- The thread stands before edge `k` of task `t`. -/
def Pc.At (h : Heap) (t : TaskId) (k : Nat) (p : Pc) : Prop :=
  p.stage h = some (t, k) ∧ k < (h t).outs.length

/-- The thread has edges of task `t` left to walk. -/
def Pc.Active (h : Heap) (t : TaskId) (p : Pc) : Prop := ∃ k, p.At h t k

instance (h : Heap) (t : TaskId) (p : Pc) : Decidable (p.Active h t) :=
  decidable_of_iff (∃ k < (h t).outs.length, p.stage h = some (t, k)) <|
    exists_congr fun _ => and_comm

/-! ## Two threads -/

namespace Example

def main : Fin 2 := ⟨0, Nat.zero_lt_two⟩

def worker : Fin 2 := ⟨1, Nat.one_lt_two⟩

end Example

end AceMesh
