import AceMesh.Reuse

/-!
# A program that uses the runtime

The program builds graphs in loops, announces numbered graphs with `dag_start` and runs
graphs with `spawn_and_wait`, in any order; a call is made when the one before has returned.
Between the calls and during `spawn_and_wait` the threads of the scheduler make their steps
in any order. `calls` keeps the calls that have been made, the newest first; no step of the
code reads it.
-/

open AceMesh.TaskDagGraph AceMesh.Runtime

namespace AceMesh

/-- What `spawn_and_wait` runs: the graph that has been built, the same after storing it, or
the graph stored for the current number. -/
inductive RunKind
  | built
  | stored
  | resumed
  deriving DecidableEq

/-- A call that has been made. -/
inductive Call
  | task (t : TaskId)
  | dagStart (dagNo : Int) (intVec : List Int) (floatVec : List Double) (ret : Bool)
  | spawnAndWait (dagNo : Int) (kind : RunKind)

/-- The tasks registered since the last `spawn_and_wait`, newest first. -/
def tasksSince : List Call → List TaskId
  | [] => []
  | .task t :: calls => t :: tasksSince calls
  | .dagStart _ _ _ _ :: calls => tasksSince calls
  | .spawnAndWait _ _ :: _ => []

/-- The tasks of the graph stored under a number: those registered before the
`spawn_and_wait` that stored it. -/
def storedTasks (dagNo : Int) : List Call → Option (List TaskId)
  | [] => none
  | .spawnAndWait no .stored :: calls =>
    if no = dagNo then some (tasksSince calls) else storedTasks dagNo calls
  | .spawnAndWait _ .built :: calls => storedTasks dagNo calls
  | .spawnAndWait _ .resumed :: calls => storedTasks dagNo calls
  | .task _ :: calls => storedTasks dagNo calls
  | .dagStart _ _ _ _ :: calls => storedTasks dagNo calls

/-- The tasks of the graph that the last `spawn_and_wait` runs. -/
def runningTasks : List Call → Option (List TaskId)
  | [] => none
  | .spawnAndWait no .resumed :: calls => storedTasks no calls
  | .spawnAndWait _ .built :: calls => some (tasksSince calls)
  | .spawnAndWait _ .stored :: calls => some (tasksSince calls)
  | .task _ :: calls => runningTasks calls
  | .dagStart _ _ _ _ :: calls => runningTasks calls

/-- A call of the program. -/
inductive ProgramCall
  | build (c : BuildCall)
  | dagStart (dagNo : Int) (intVec : List Int) (floatVec : List Double)
  | spawnAndWait

structure Session (m : Nat) where
  runtime : Runtime m
  /-- Between `begin_split_task` and `end_split_task`. -/
  looping : Bool
  calls : List Call

namespace Session

variable {m : Nat}

abbrev graph (s : Session m) : TaskDagGraph := s.runtime.graph

abbrev heap (s : Session m) : Heap := s.runtime.graph.heap

def setGraph (s : Session m) (g : TaskDagGraph) : Session m :=
  { s with runtime := { s.runtime with graph := g } }

/-- The program starts, with `m + 1` threads. -/
def start : Session m where
  runtime := Runtime.initial (TaskDagGraph.init (m + 1))
  looping := false
  calls := []

/-- Tasks are registered inside of loops; `sche_num_threads` is the number of threads. -/
def build (s : Session m) (c : BuildCall) : Option (Session m) :=
  match c, s.looping with
  | .beginSplitTask, false => some { s.setGraph s.graph.beginSplitTask with looping := true }
  | .beginSplitTaskNamed n, false =>
    if n = m + 1 then some { s.setGraph (s.graph.beginSplitTaskNamed n) with looping := true }
    else none
  | .registerTask spec, true =>
    some { s.setGraph (s.graph.taskGenerator spec) with calls := .task s.graph.fresh :: s.calls }
  | .endSplitTask, true => some { s.setGraph s.graph.endSplitTask with looping := false }
  | _, _ => none

def dagStart (s : Session m) (dagNo : Int) (intVec : List Int) (floatVec : List Double) :
    Session m :=
  { s.setGraph (s.graph.dagStart dagNo intVec floatVec).1 with
    calls := .dagStart dagNo intVec floatVec (s.graph.dagStart dagNo intVec floatVec).2 ::
      s.calls }

/-- What the next `spawn_and_wait` runs. -/
def kind (s : Session m) : RunKind :=
  if s.graph.reuses then .resumed else if s.graph.inits then .stored else .built

/-- `spawn_and_wait` up to the first root that is pushed. -/
def spawnAndWait (s : Session m) : Option (Session m) :=
  s.graph.prepare.bind fun g =>
    ({ s.runtime with graph := g }.spawn).map fun r =>
      { s with
        runtime := r
        calls := .spawnAndWait s.graph.reuse.currDagNo s.kind :: s.calls }

theorem spawnAndWait_eq_some {s s' : Session m} (h : s.spawnAndWait = some s') :
    ∃ g e, s.graph.prepare = some g ∧ g.endTask = some e ∧ (g.heap e).deleted = false ∧
      s' = { s with
        runtime := { s.runtime with
          graph := { g with heap := g.heap.incrementRefCount e }
          main := .spawn e g.needSpawnTasks
          log := [] }
        calls := .spawnAndWait s.graph.reuse.currDagNo s.kind :: s.calls } := by
  obtain ⟨g, hg, hr⟩ := Option.bind_eq_some_iff.mp h
  obtain ⟨r, hspawn, rfl⟩ := Option.map_eq_some_iff.mp hr
  obtain ⟨e, hend, hdeleted, rfl⟩ := Runtime.spawn_eq_some_iff.mp hspawn
  exact ⟨g, e, hg, hend, hdeleted, rfl⟩

/-- The program makes a call. -/
def call (s : Session m) (c : ProgramCall) : Option (Session m) :=
  if s.runtime.main = .prog then
    match c with
    | .build c => s.build c
    | .dagStart dagNo intVec floatVec =>
      if s.looping then none else some (s.dagStart dagNo intVec floatVec)
    | .spawnAndWait => if s.looping then none else s.spawnAndWait
  else none

/-- A step of a thread, or a call of the program. -/
inductive Act (m : Nat)
  | thread (i : Fin (m + 1)) (hit : Bool)
  | call (c : ProgramCall)

def act (s : Session m) : Act m → Option (Session m)
  | .thread i hit => (s.runtime.step i hit).map fun r => { s with runtime := r }
  | .call c => s.call c

/-- The states that a program can reach by acts that meet a condition. -/
inductive Reached (ok : Session m → Act m → Prop) : Session m → Prop
  | start : Reached ok start
  | act {s s' : Session m} {a : Act m} :
      Reached ok s → ok s a → s.act a = some s' → Reached ok s'

/-- The acts of one run. -/
def run (s : Session m) : List (Act m) → Option (Session m)
  | [] => some s
  | a :: acts => (s.act a).bind fun s => s.run acts

theorem isRun_run : IsRun (Session.act (m := m)) Session.run :=
  ⟨fun _ => rfl, fun _ _ _ => rfl⟩

theorem Reached.run {s s' : Session m} (h : Reached (fun _ _ => True) s) (acts : List (Act m))
    (hrun : s.run acts = some s') : Reached (fun _ _ => True) s' :=
  isRun_run.keeps (fun _ _ _ _ hact hreached => hreached.act trivial hact) hrun h

theorem Reached.mono {ok ok' : Session m → Act m → Prop} (himp : ∀ s a, ok s a → ok' s a)
    {s : Session m} (h : Reached ok s) : Reached ok' s := by
  induction h with
  | start => exact .start
  | act _ hok hact ih => exact ih.act (himp _ _ hok) hact

end Session

end AceMesh
