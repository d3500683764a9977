import Mathlib.Algebra.Order.Ring.Int
import Mathlib.Logic.Function.Basic

/-!
# The data race tracer

The `DATA_RACE_TRACE` build: tasks and data are registered while a graph is built, tasks get
ids in this order, and every access of a running task is checked against the latest reader and
the latest writer of the data (`Access.trace_spec`).

A call of a function of the tracer that fails an assertion ends the program. The buffers for
the texts are unbounded here.
-/

namespace AceMesh.DataRaceTrace

/-- A `long`. -/
abbrev TaskIdT := Int

/-- The `int` that a `long` is converted to. -/
def toInt (x : TaskIdT) : Int := x.bmod (2 ^ 32)

structure DataObjState where
  latestReadTaskId : Int
  latestWriteTaskId : Int

/-- The constructor. -/
def DataObjState.new : DataObjState := ⟨0, 0⟩

/-- A loop, with the ids of its tasks and its location in the program. -/
structure Loop where
  taskSet : List TaskIdT
  locationDescript : String

/-- The global variables. `currentLoop` is `CurrentTaskSet` with `CurrentLoopLocationDescript`,
and `localTask` is what a thread keeps under `LocalTaskKey`. -/
structure Tracer (Task Data Thread : Type) where
  dataObjStateMap : Data → Option DataObjState
  dataPtr2DataName : Data → Option String
  taskPtr2Id : Task → Option TaskIdT
  id2LoopLocation : List Loop
  currentLoop : Option Loop
  globalTaskId : TaskIdT
  localTask : Thread → Option Task

/-- Why a call does not return: the errors of the tracer, the fatal ones, and the access to a
set that is not there. -/
inductive Stop
  | broken (text : String)
  | fatal (text : String)
  | segfault

namespace Tracer

variable {Task Data Thread : Type} [DecidableEq Task] [DecidableEq Data] [DecidableEq Thread]

/-- A program that has not called the tracer. -/
def start : Tracer Task Data Thread where
  dataObjStateMap := fun _ => none
  dataPtr2DataName := fun _ => none
  taskPtr2Id := fun _ => none
  id2LoopLocation := []
  currentLoop := none
  globalTaskId := 0
  localTask := fun _ => none

def beginSplitTaskWrap (s : Tracer Task Data Thread) (fileName : String) (line : Int) :
    Tracer Task Data Thread :=
  { s with currentLoop := some ⟨[], fileName ++ ":" ++ toString line ++ " TaskId:" ++
      toString s.globalTaskId ++ "-"⟩ }

def endSplitTaskWrap (s : Tracer Task Data Thread) : Tracer Task Data Thread :=
  match s.currentLoop with
  | none => s
  | some loop =>
    { s with
      id2LoopLocation := s.id2LoopLocation ++
        [⟨loop.taskSet, loop.locationDescript ++ toString s.globalTaskId⟩]
      currentLoop := none }

def spawnAndWaitWrap (s : Tracer Task Data Thread) : Tracer Task Data Thread :=
  { s with
    dataObjStateMap := fun _ => none
    dataPtr2DataName := fun _ => none
    taskPtr2Id := fun _ => none
    id2LoopLocation := [] }

def enterTaskExec (s : Tracer Task Data Thread) (thread : Thread) (task : Task) :
    Tracer Task Data Thread :=
  { s with localTask := Function.update s.localTask thread (some task) }

def addData2Trace (s : Tracer Task Data Thread) (name : String) (dataPtr : Data) :
    Tracer Task Data Thread :=
  match s.dataPtr2DataName dataPtr with
  | some _ => s
  | none =>
    { s with
      dataPtr2DataName := Function.update s.dataPtr2DataName dataPtr (some name)
      -- `insert` keeps a state that is there
      dataObjStateMap := Function.update s.dataObjStateMap dataPtr
        (some ((s.dataObjStateMap dataPtr).getD DataObjState.new)) }

def addTask2Trace (s : Tracer Task Data Thread) (task : Task) :
    Except Stop (Tracer Task Data Thread) :=
  match s.taskPtr2Id task with
  | some _ => .ok s
  | none =>
    match s.currentLoop with
    | none => .error .segfault
    | some loop =>
      .ok { s with
        globalTaskId := s.globalTaskId + 1
        taskPtr2Id := Function.update s.taskPtr2Id task (some (toInt s.globalTaskId))
        currentLoop := some { loop with taskSet := toInt s.globalTaskId :: loop.taskSet } }

/-! ## The errors -/

/-- What `%s` prints. -/
def text (s : Option String) : String := s.getD "(null)"

def findLoopLocationByTaskId (s : Tracer Task Data Thread) (taskId : TaskIdT) : Option String :=
  (s.id2LoopLocation.find? fun loop => loop.taskSet.contains taskId).map (·.locationDescript)

def writeAfterWriteError (s : Tracer Task Data Thread) (writeTaskIdNew : TaskIdT)
    (aliasNew : Option String) (writeTaskIdOld : TaskIdT) (aliasOld : Option String) : Stop :=
  let writeLoopLocationNew := text (s.findLoopLocationByTaskId writeTaskIdNew)
  let writeLoopLocationOld := text (s.findLoopLocationByTaskId writeTaskIdOld)
  .broken ("Error! Write After Write Dependence Broken! " ++
    (match aliasOld with
      | some a => "Old Write at " ++ writeLoopLocationOld ++ " variable " ++ a ++ ","
      | none => "Old Write at " ++ writeLoopLocationOld ++ ",") ++
    (match aliasNew with
      | some a => "New Write at " ++ writeLoopLocationNew ++ " variable " ++ a ++ "\n"
      -- the location of the old write, as in the source
      | none => "New Write at " ++ writeLoopLocationOld ++ "\n"))

def readAfterWriteError (s : Tracer Task Data Thread) (readTaskId : TaskIdT)
    (aliasRead : Option String) (writeTaskId : TaskIdT) (aliasWrite : Option String) : Stop :=
  let readLoopLocation := text (s.findLoopLocationByTaskId readTaskId)
  let writeLoopLocation := text (s.findLoopLocationByTaskId writeTaskId)
  .broken ("Error! Read After Write Dependence Broken! " ++
    (match aliasRead with
      | some a => "Read at " ++ readLoopLocation ++ " variable " ++ a ++ ","
      | none => "Read at " ++ readLoopLocation ++ ",") ++
    (match aliasWrite with
      | some a => "Write at " ++ writeLoopLocation ++ " variable " ++ a ++ "\n"
      | none => "Write at " ++ writeLoopLocation ++ "\n"))

/-! ## The accesses -/

/-- The first half of the four functions below: the id of the task that the thread executes and
the state of the data. -/
def lookup (s : Tracer Task Data Thread) (function : String) (thread : Thread) (dataPtr : Data)
    (aliasName : Option String) : Except Stop (TaskIdT × DataObjState) :=
  match s.localTask thread with
  | none =>
    .error (.fatal ("Fatal error! " ++ function ++ " can't find current task pointer in TLS\n"))
  | some task =>
    match s.taskPtr2Id task with
    | none => .error (.fatal "Fatal error! can't find task in map TaskPtr2Id\n")
    | some taskId =>
      match s.dataObjStateMap dataPtr with
      | some state => .ok (taskId, state)
      | none =>
        .error (.fatal ("Fatal error! can't find DataObjState of " ++ text aliasName ++
          " in DataObjStateMap. Task loc:" ++ text (s.findLoopLocationByTaskId taskId) ++ " \n"))

def setState (s : Tracer Task Data Thread) (dataPtr : Data) (state : DataObjState) :
    Tracer Task Data Thread :=
  { s with dataObjStateMap := Function.update s.dataObjStateMap dataPtr (some state) }

end Tracer

def DataObjState.setRead (state : DataObjState) (taskId : TaskIdT) : DataObjState :=
  { state with latestReadTaskId := toInt (max taskId state.latestReadTaskId) }

def DataObjState.setWrite (state : DataObjState) (taskId : TaskIdT) : DataObjState :=
  { state with latestWriteTaskId := toInt (max taskId state.latestWriteTaskId) }

namespace Tracer

variable {Task Data Thread : Type} [DecidableEq Task] [DecidableEq Data] [DecidableEq Thread]

def readHaloTrace (s : Tracer Task Data Thread) (thread : Thread) (dataPtr : Data)
    (aliasName : Option String) : Except Stop (Tracer Task Data Thread) := do
  let (taskId, state) ← s.lookup "ReadHaloTrace" thread dataPtr aliasName
  return s.setState dataPtr (state.setRead taskId)

def readTrace (s : Tracer Task Data Thread) (thread : Thread) (dataPtr : Data)
    (aliasName : Option String) : Except Stop (Tracer Task Data Thread) := do
  let (taskId, state) ← s.lookup "ReadTrace" thread dataPtr aliasName
  if state.latestWriteTaskId > taskId then
    throw (s.readAfterWriteError taskId aliasName state.latestWriteTaskId none)
  return s.setState dataPtr (state.setRead taskId)

def writeHaloTrace (s : Tracer Task Data Thread) (thread : Thread) (dataPtr : Data)
    (aliasName : Option String) : Except Stop (Tracer Task Data Thread) := do
  let (taskId, state) ← s.lookup "WriteHaloTrace" thread dataPtr aliasName
  return s.setState dataPtr (state.setWrite taskId)

def writeTrace (s : Tracer Task Data Thread) (thread : Thread) (dataPtr : Data)
    (aliasName : Option String) : Except Stop (Tracer Task Data Thread) := do
  let (taskId, state) ← s.lookup "WriteTrace" thread dataPtr aliasName
  if state.latestReadTaskId > taskId then
    throw (s.readAfterWriteError state.latestReadTaskId none taskId aliasName)
  if state.latestWriteTaskId > taskId then
    throw (s.writeAfterWriteError state.latestWriteTaskId none taskId aliasName)
  return s.setState dataPtr (state.setWrite taskId)

end Tracer

/-! ## One access -/

/-- The four functions that trace an access. -/
inductive Access
  | readHalo
  | read
  | writeHalo
  | write
  deriving DecidableEq

namespace Access

def halo : Access → Bool
  | readHalo | writeHalo => true
  | read | write => false

def writes : Access → Bool
  | writeHalo | write => true
  | readHalo | read => false

def function : Access → String
  | readHalo => "ReadHaloTrace"
  | read => "ReadTrace"
  | writeHalo => "WriteHaloTrace"
  | write => "WriteTrace"

variable {Task Data Thread : Type} [DecidableEq Data]

def trace (access : Access) (s : Tracer Task Data Thread) :
    Thread → Data → Option String → Except Stop (Tracer Task Data Thread) :=
  match access with
  | readHalo => s.readHaloTrace
  | read => s.readTrace
  | writeHalo => s.writeHaloTrace
  | write => s.writeTrace

end Access

section Spec

variable {Task Data Thread : Type}

/-- What an access does to the state when nothing is checked. -/
def Access.update (access : Access) (state : DataObjState) (taskId : TaskIdT) : DataObjState :=
  if access.writes then state.setWrite taskId else state.setRead taskId

theorem toInt_toInt (x : TaskIdT) : toInt (toInt x) = toInt x := Int.bmod_bmod

/-- The conversion keeps the larger of two `int`s. -/
theorem toInt_max {x y : TaskIdT} (hx : toInt x = x) (hy : toInt y = y) :
    toInt (max x y) = max x y := by
  rcases le_total x y with hle | hle
  · rw [max_eq_right hle, hy]
  · rw [max_eq_left hle, hx]

/-- The latest writer or the latest reader. -/
def DataObjState.latest (state : DataObjState) (writes : Bool) : TaskIdT :=
  if writes then state.latestWriteTaskId else state.latestReadTaskId

theorem Access.latest_update (kind : Access) (state : DataObjState) (taskId : TaskIdT)
    (writes : Bool) : (kind.update state taskId).latest writes =
      if kind.writes = writes then toInt (max taskId (state.latest writes))
      else state.latest writes := by
  unfold Access.update DataObjState.latest
  cases kind.writes <;> cases writes <;> rfl

/-- The check of the state in which an access finds the data. -/
def Access.Breaks (kind : Access) (state : DataObjState) (taskId : TaskIdT) : Prop :=
  kind.halo = false ∧ ∃ writes : Bool, (writes ∨ kind.writes) ∧ taskId < state.latest writes

theorem Access.breaks_read {state : DataObjState} {taskId : TaskIdT} :
    read.Breaks state taskId ↔ taskId < state.latestWriteTaskId := by
  constructor
  · rintro ⟨-, writes, hwrites, hlt⟩
    cases writes with
    | false => exact absurd hwrites (by decide)
    | true => exact hlt
  · intro hlt
    exact ⟨rfl, true, Or.inl rfl, hlt⟩

theorem Access.breaks_write {state : DataObjState} {taskId : TaskIdT} :
    write.Breaks state taskId ↔
      taskId < state.latestReadTaskId ∨ taskId < state.latestWriteTaskId := by
  constructor
  · rintro ⟨-, writes, -, hlt⟩
    cases writes with
    | false => exact Or.inl hlt
    | true => exact Or.inr hlt
  · rintro (hlt | hlt)
    · exact ⟨rfl, false, Or.inr rfl, hlt⟩
    · exact ⟨rfl, true, Or.inr rfl, hlt⟩

variable {s : Tracer Task Data Thread} {thread : Thread} {dataPtr : Data}
  {aliasName : Option String} {taskId : TaskIdT}
  {state : DataObjState} {kind : Access}

theorem Tracer.lookup_spec {function : String}
    (h : s.lookup function thread dataPtr aliasName = .ok (taskId, state)) :
    (∃ task, s.taskPtr2Id task = some taskId) ∧ s.dataObjStateMap dataPtr = some state := by
  unfold Tracer.lookup at h
  split at h
  · cases h
  · split at h
    · cases h
    next task _ _ hid =>
      split at h
      next hstate =>
        cases h
        exact ⟨⟨_, hid⟩, hstate⟩
      · cases h

variable [DecidableEq Data]

/-- An access that finds its task and its data either breaks a dependence or updates the
state. -/
theorem Access.trace_spec
    (h : s.lookup kind.function thread dataPtr aliasName = .ok (taskId, state)) :
    (kind.Breaks state taskId ∧
      ∃ text, kind.trace s thread dataPtr aliasName = .error (.broken text)) ∨
    (¬kind.Breaks state taskId ∧ kind.trace s thread dataPtr aliasName =
      .ok (s.setState dataPtr (kind.update state taskId))) := by
  cases kind with
  | readHalo =>
      refine Or.inr ⟨fun hbreaks => absurd hbreaks.1 (by decide), ?_⟩
      show s.readHaloTrace thread dataPtr aliasName = _
      unfold Tracer.readHaloTrace
      rw [show s.lookup "ReadHaloTrace" thread dataPtr aliasName = _ from h]
      rfl
  | writeHalo =>
      refine Or.inr ⟨fun hbreaks => absurd hbreaks.1 (by decide), ?_⟩
      show s.writeHaloTrace thread dataPtr aliasName = _
      unfold Tracer.writeHaloTrace
      rw [show s.lookup "WriteHaloTrace" thread dataPtr aliasName = _ from h]
      rfl
  | read =>
      rw [Access.breaks_read]
      show (_ ∧ ∃ text, s.readTrace thread dataPtr aliasName = .error (.broken text)) ∨
        (_ ∧ s.readTrace thread dataPtr aliasName = _)
      unfold Tracer.readTrace
      rw [show s.lookup "ReadTrace" thread dataPtr aliasName = _ from h]
      by_cases hlt : taskId < state.latestWriteTaskId
      · refine Or.inl ⟨hlt, ?_⟩
        simp only [bind, Except.bind, gt_iff_lt, hlt, if_true]
        exact ⟨_, rfl⟩
      · refine Or.inr ⟨hlt, ?_⟩
        simp only [bind, Except.bind, gt_iff_lt, hlt, if_false]
        rfl
  | write =>
      rw [Access.breaks_write]
      show (_ ∧ ∃ text, s.writeTrace thread dataPtr aliasName = .error (.broken text)) ∨
        (_ ∧ s.writeTrace thread dataPtr aliasName = _)
      unfold Tracer.writeTrace
      rw [show s.lookup "WriteTrace" thread dataPtr aliasName = _ from h]
      by_cases hread : taskId < state.latestReadTaskId
      · refine Or.inl ⟨Or.inl hread, ?_⟩
        simp only [bind, Except.bind, gt_iff_lt, hread, if_true]
        exact ⟨_, rfl⟩
      · by_cases hwrite : taskId < state.latestWriteTaskId
        · refine Or.inl ⟨Or.inr hwrite, ?_⟩
          simp only [bind, Except.bind, gt_iff_lt, hread, hwrite, if_true, if_false]
          exact ⟨_, rfl⟩
        · refine Or.inr ⟨not_or_intro hread hwrite, ?_⟩
          simp only [bind, Except.bind, gt_iff_lt, hread, hwrite, if_false]
          rfl

end Spec

/-! ## Runs -/

/-- A call of a function of the tracer. -/
inductive Call (Task Data Thread : Type)
  | beginSplitTask (fileName : String) (line : Int)
  | endSplitTask
  | spawnAndWait
  | addTask (task : Task)
  | addData (name : String) (dataPtr : Data)
  | enterTaskExec (thread : Thread) (task : Task)
  | access (kind : Access) (thread : Thread) (dataPtr : Data) (aliasName : Option String)

section Run

variable {Task Data Thread : Type} [DecidableEq Task] [DecidableEq Data] [DecidableEq Thread]

def Call.perform (s : Tracer Task Data Thread) :
    Call Task Data Thread → Except Stop (Tracer Task Data Thread)
  | beginSplitTask fileName line => .ok (s.beginSplitTaskWrap fileName line)
  | endSplitTask => .ok s.endSplitTaskWrap
  | spawnAndWait => .ok s.spawnAndWaitWrap
  | addTask task => s.addTask2Trace task
  | addData name dataPtr => .ok (s.addData2Trace name dataPtr)
  | enterTaskExec thread task => .ok (s.enterTaskExec thread task)
  | access kind thread dataPtr aliasName => kind.trace s thread dataPtr aliasName

def run (s : Tracer Task Data Thread) (calls : List (Call Task Data Thread)) :
    Except Stop (Tracer Task Data Thread) :=
  calls.foldlM (fun s call => call.perform s) s

end Run

end AceMesh.DataRaceTrace
