import AceMesh.Parallel
import AceMesh.SessionRun

/-!
# A program with its memory

`aceMesh_clang.cpp`: the program pushes the addresses that a task reads and writes into
`_v_addr_tuple` and hands them over together with the function that is its body; the arguments
of the function are copied. Between the calls it writes memory itself. During `spawn_and_wait`
the threads run the bodies, access by access and in any order the graph allows.

A program that resumes a stored graph without a task has no next state, as in `Session`: its end
task has been deleted by the run that stored it.

`specs`, `loops` and `changes` keep what has been registered since the last `spawn_and_wait` and
what has changed the memory since the start; no step of the code reads them.
-/

open AceMesh.TaskDagGraph AceMesh.Runtime

namespace AceMesh

/-! ## Pushing addresses -/

/-- The area flag that a program passes. -/
inductive AreaFlag
  | NORMAL
  | SHADE
  | UNSHADE
  | SHADE_AND_UNSHADE
  deriving DecidableEq, Repr

/-- The tuples that one address and its flag are pushed as. -/
def pushItem (type : InOut) (localVector : List AddrTuple) (item : Addr × AreaFlag) :
    List AddrTuple :=
  match item.2 with
  | .SHADE_AND_UNSHADE =>
    localVector ++ [⟨item.1, .SHADE, type, NEIGHBOR_NONE, .INOUT_NONE⟩] ++
      [⟨item.1, .UNSHADE, type, NEIGHBOR_NONE, .INOUT_NONE⟩]
  | .NORMAL => localVector ++ [⟨item.1, .NORMAL, type, NEIGHBOR_NONE, .INOUT_NONE⟩]
  | .SHADE => localVector ++ [⟨item.1, .SHADE, type, NEIGHBOR_NONE, .INOUT_NONE⟩]
  | .UNSHADE => localVector ++ [⟨item.1, .UNSHADE, type, NEIGHBOR_NONE, .INOUT_NONE⟩]

/-- `acemesh_do_push`. The first address is an argument of its own, so there is one. -/
def doPush (localVector : List AddrTuple) (item : Addr × AreaFlag) (args : List (Addr × AreaFlag))
    (type : InOut) : List AddrTuple :=
  args.foldl (pushItem type) (pushItem type localVector item)

/-- The addresses that an address with a flag stands for. -/
def flagAddrs : Addr × AreaFlag → List Addr
  | (a, .NORMAL) => [getTrueAddr a .NORMAL]
  | (a, .SHADE) => [getTrueAddr a .SHADE]
  | (a, .UNSHADE) => [getTrueAddr a .UNSHADE]
  | (a, .SHADE_AND_UNSHADE) => [getTrueAddr a .SHADE, getTrueAddr a .UNSHADE]

/-- The calls that push addresses. -/
inductive PushCall
  | acemeshPushWrlist
  | acemeshPushRlist
  | acemeshPushWlist

def PushCall.type : PushCall → InOut
  | acemeshPushWrlist => .INOUT
  | acemeshPushRlist => .IN
  | acemeshPushWlist => .OUT

def NEIGHBOR_ALL : Nat := 0x0000ffff

/-- `get_neighbor` of a `ci_task`: the function of the program, if there is one, fills the
array with the same addresses whatever the neighbour and the address. -/
def ciGetNeighbor (ciGetNeighbors : Option (List Addr)) : Nat → Addr → List Addr :=
  fun _ _ => ciGetNeighbors.getD []

/-- The tuple that `acemesh_task_generator_with_neighbors` adds. -/
def neighborItem : AddrTuple := ⟨0, .NORMAL, .INOUT_NONE, NEIGHBOR_ALL, .IN⟩

/-- What `acemesh_task_generator` or `acemesh_task_generator_with_neighbors` registers. -/
def ciTask (junk : Junk) (ciGetNeighbors : Option (List Addr)) (localVector : List AddrTuple) :
    TaskSpec where
  junk := junk
  getNeighbor := ciGetNeighbor ciGetNeighbors
  addrs := match ciGetNeighbors with
    | none => localVector
    | some _ => localVector ++ [neighborItem]

/-! ## The state -/

/-- What changes the memory, as the program sees it: a write of its own, or the tasks that one
`spawn_and_wait` runs, the newest first. -/
inductive Change (V : Type)
  | write (a : Addr) (v : V)
  | run (tasks : List TaskId)

/-- The memory after the changes, the newest first, if the tasks of a run are run one after
another in the order of their registration. -/
def replay {V : Type} (body : TaskId → Serial.Prog Addr V) (mem : Addr → V) :
    List (Change V) → Addr → V
  | [] => mem
  | .write a v :: changes => Function.update (replay body mem changes) a v
  | .run tasks :: changes => Serial.runAll body tasks (replay body mem changes)

structure Program (m : Nat) (V : Type) where
  session : Session m
  /-- `_v_addr_tuple`. -/
  localVector : List AddrTuple
  /-- `ci_task_func` of a task, applied to its copy of the arguments. -/
  body : TaskId → Serial.Prog Addr V
  mem : Addr → V
  /-- What is left of the body a thread runs. -/
  cont : Fin (m + 1) → Serial.Prog Addr V
  /-- The tasks registered since the last `spawn_and_wait`, with the numbers of their loops. -/
  specs : List (Nat × TaskSpec)
  loops : Nat
  changes : List (Change V)

namespace Program

variable {m : Nat} {V : Type}

abbrev runtime (s : Program m V) : Runtime m := s.session.runtime

abbrev graph (s : Program m V) : TaskDagGraph := s.session.runtime.graph

abbrev heap (s : Program m V) : Heap := s.session.runtime.graph.heap

/-- The threads with the memory their bodies work on. -/
def machine (s : Program m V) : Machine m V := ⟨s.session.runtime, s.mem, s.cont⟩

/-- The program starts, with `m + 1` threads, in any memory. -/
def start (mem : Addr → V) : Program m V where
  session := Session.start
  localVector := []
  body := fun _ => .done
  mem := mem
  cont := fun _ => .done
  specs := []
  loops := 0
  changes := []

/-! ## Acts -/

def thread (s : Program m V) (i : Fin (m + 1)) (hit : Bool) : Option (Program m V) :=
  (s.machine.step s.body i hit).map fun x =>
    { s with session := { s.session with runtime := x.runtime }, mem := x.mem, cont := x.cont }

def push (s : Program m V) (c : PushCall) (item : Addr × AreaFlag)
    (args : List (Addr × AreaFlag)) : Option (Program m V) :=
  if s.runtime.main = .prog then
    some { s with localVector := doPush s.localVector item args c.type }
  else none

/-- The program writes memory between two calls. -/
def write (s : Program m V) (a : Addr) (v : V) : Option (Program m V) :=
  if s.runtime.main = .prog then
    some { s with mem := Function.update s.mem a v, changes := .write a v :: s.changes }
  else none

/-- `acemesh_task_generator`, or `acemesh_task_generator_with_neighbors` with a `NULL` pointer
to an object: the tuples are used up. -/
def taskGenerator (s : Program m V) (junk : Junk) (ciGetNeighbors : Option (List Addr))
    (body : Serial.Prog Addr V) : Option (Program m V) :=
  let spec := ciTask junk ciGetNeighbors s.localVector
  (s.session.call (.build (.registerTask spec))).map fun session =>
    { s with
      session := session
      localVector := []
      body := Function.update s.body s.graph.fresh body
      specs := s.specs ++ [(s.loops, spec)] }

/-- The other calls. A task is registered by `taskGenerator`. -/
def call (s : Program m V) : ProgramCall → Option (Program m V)
  | .build (.registerTask _) => none
  | .build .endSplitTask => (s.session.call (.build .endSplitTask)).map fun session =>
      { s with session := session, loops := s.loops + 1 }
  | .build c => (s.session.call (.build c)).map fun session => { s with session := session }
  | .dagStart no iv fv =>
    (s.session.call (.dagStart no iv fv)).map fun session => { s with session := session }
  | .spawnAndWait => (s.session.call .spawnAndWait).map fun session =>
      { s with
        session := session
        specs := []
        loops := 0
        changes := .run ((runningTasks session.calls).getD []) :: s.changes }

/-- A step of a thread, or one of the program. -/
inductive Act (m : Nat) (V : Type)
  | thread (i : Fin (m + 1)) (hit : Bool)
  | push (c : PushCall) (item : Addr × AreaFlag) (args : List (Addr × AreaFlag))
  | write (a : Addr) (v : V)
  | taskGenerator (junk : Junk) (ciGetNeighbors : Option (List Addr)) (body : Serial.Prog Addr V)
  | call (c : ProgramCall)

def act (s : Program m V) : Act m V → Option (Program m V)
  | .thread i hit => s.thread i hit
  | .push c item args => s.push c item args
  | .write a v => s.write a v
  | .taskGenerator junk ciGetNeighbors body => s.taskGenerator junk ciGetNeighbors body
  | .call c => s.call c

/-- The states that a program can reach from a memory by acts that meet a condition. -/
inductive Reached (ok : Program m V → Act m V → Prop) (mem : Addr → V) : Program m V → Prop
  | start : Reached ok mem (start mem)
  | act {s s' : Program m V} {a : Act m V} :
      Reached ok mem s → ok s a → s.act a = some s' → Reached ok mem s'

/-! ## What a registration declares -/

/-- The task declares a read of the address. -/
def Reads (spec : TaskSpec) (a : Addr) : Prop :=
  a ≠ 0 ∧ ∃ x ∈ spec.accesses, x.addr = a ∧ x.type.reads = true

/-- The task declares a write of the address. -/
def Writes (spec : TaskSpec) (a : Addr) : Prop :=
  a ≠ 0 ∧ ∃ x ∈ spec.accesses, x.addr = a ∧ x.type.writes = true

instance (spec : TaskSpec) (a : Addr) : Decidable (Reads spec a) :=
  inferInstanceAs (Decidable (_ ∧ ∃ x ∈ spec.accesses, _))

instance (spec : TaskSpec) (a : Addr) : Decidable (Writes spec a) :=
  inferInstanceAs (Decidable (_ ∧ ∃ x ∈ spec.accesses, _))

/-- The task conflicts with no other one of its loop. -/
def Separate (s : Program m V) (spec : TaskSpec) : Prop :=
  ∀ p ∈ s.specs, p.1 = s.loops → ∀ x ∈ p.2.accesses, ∀ y ∈ spec.accesses, ¬ x.Clash y

instance (s : Program m V) (spec : TaskSpec) : Decidable (s.Separate spec) :=
  inferInstanceAs (Decidable (∀ p ∈ s.specs, _ → ∀ x ∈ p.2.accesses, ∀ y ∈ spec.accesses, _))

/-- Bodies access what has been pushed for them, and the tasks of one loop do not conflict. -/
def Honest (s : Program m V) : Act m V → Prop
  | .taskGenerator junk ciGetNeighbors body =>
    body.Within (Reads (ciTask junk ciGetNeighbors s.localVector))
      (Writes (ciTask junk ciGetNeighbors s.localVector)) ∧
    s.Separate (ciTask junk ciGetNeighbors s.localVector)
  | _ => True

end Program

/-! ## The accesses of what has been pushed -/

theorem accesses_pushItem (getNeighbor : Nat → Addr → List Addr) (type : InOut)
    (localVector : List AddrTuple) {item : Addr × AreaFlag} (ha : item.1 ≠ 0) :
    (pushItem type localVector item).flatMap (AddrTuple.accesses getNeighbor) =
      localVector.flatMap (AddrTuple.accesses getNeighbor) ++
        (flagAddrs item).map fun a => ⟨a, type, false⟩ := by
  obtain ⟨a, flag⟩ := item
  cases flag with
  | NORMAL => simp_all [pushItem, AddrTuple.accesses, flagAddrs]
  | SHADE => simp_all [pushItem, AddrTuple.accesses, flagAddrs]
  | UNSHADE => simp_all [pushItem, AddrTuple.accesses, flagAddrs]
  | SHADE_AND_UNSHADE => simp_all [pushItem, AddrTuple.accesses, flagAddrs]

/-- Every address that is pushed is accessed, in the order of the arguments. -/
theorem accesses_doPush (getNeighbor : Nat → Addr → List Addr) (localVector : List AddrTuple)
    (item : Addr × AreaFlag) (args : List (Addr × AreaFlag)) (type : InOut)
    (h : ∀ x ∈ item :: args, x.1 ≠ 0) :
    (doPush localVector item args type).flatMap (AddrTuple.accesses getNeighbor) =
      localVector.flatMap (AddrTuple.accesses getNeighbor) ++
        ((item :: args).flatMap flagAddrs).map fun a => ⟨a, type, false⟩ := by
  have hone := accesses_pushItem getNeighbor type localVector (h item List.mem_cons_self)
  unfold doPush
  generalize pushItem type localVector item = v at hone ⊢
  rw [List.flatMap_cons, List.map_append, ← List.append_assoc, ← hone]
  have hargs : ∀ x ∈ args, x.1 ≠ 0 := fun x hx => h x (List.mem_cons_of_mem _ hx)
  clear hone h
  induction args generalizing v with
  | nil => simp
  | cons x args ih =>
      rw [List.foldl_cons, ih _ fun y hy => hargs y (List.mem_cons_of_mem _ hy),
        accesses_pushItem getNeighbor type v (hargs x List.mem_cons_self), List.append_assoc,
        ← List.map_append, List.flatMap_cons]

end AceMesh
