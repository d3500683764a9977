import AceMesh.Lib.Runs
import AceMesh.Task
import Mathlib.Data.Bool.Basic
import Mathlib.Logic.Relation

/-!
# Thread groups

The master thread of a group hands work to its sub-threads (`run_task`) and waits for them
(`wait_all_tasks`). Each sub-thread has a flag `is_idle`, a mutex and two condition variables:
on `cond_go` only the sub-thread waits, on `cond_finish` only the master. Threads interleave at
every operation on a mutex or a condition variable, and a thread that waits may wake up without
a signal.

The sub-thread tests `is_idle` again after it has woken up. The master does not, so
`wait_all_tasks` is a barrier only if no wake-up without a signal lets it pass a sub-thread that
is still at work (`wait_all_tasks_barrier`).

`subthreads_run` is true until the group is destroyed. `started` and `executed` record what has
happened; no step reads them.
-/

namespace AceMesh

/-- Who can hold the mutex of a sub-thread. -/
inductive Party
  | master
  | subthread
  deriving DecidableEq

/-- Why a thread has woken up. -/
inductive Wake
  | signal
  | spurious
  deriving DecidableEq

/-- Where a sub-thread stands in `subthread_func`. -/
inductive SubPc
  | top
  | lock
  /-- At the test of `is_idle`, with the mutex. -/
  | test
  | wait
  /-- Awake, and about to take the mutex again. -/
  | woken
  | unlock
  /-- Before the assertion. -/
  | enter
  | body (task : TaskId) (param : Nat)
  | lockEnd
  | setIdle
  | signal
  | unlockEnd
  deriving DecidableEq

namespace SubPc

/-- The sub-thread is between taking and releasing the mutex. -/
def holds : SubPc → Bool
  | .test | .unlock | .setIdle | .signal | .unlockEnd => true
  | _ => false

/-- From the test that has found work to the end of this work. -/
def busy : SubPc → Bool
  | .unlock | .enter | .body _ _ | .lockEnd | .setIdle => true
  | _ => false

/-- The body is over, but the flag is not set. -/
def done : SubPc → Bool
  | .lockEnd | .setIdle => true
  | _ => false

theorem busy_of_done {p : SubPc} (h : p.done = true) : p.busy = true := by
  cases p <;> first | rfl | cases h

end SubPc

/-- Where the master stands: between two calls, in `run_task`, in the loop of
`wait_all_tasks`, or behind it. -/
inductive MasterPc (n : Nat)
  | call
  | runLock (i : Fin n)
  | runSet (i : Fin n)
  | runSignal (i : Fin n)
  | runUnlock (i : Fin n)
  /-- At the head of the loop. -/
  | waitLock (k : Nat)
  | waitTest (i : Fin n)
  | waiting (i : Fin n)
  | woken (i : Fin n) (wake : Wake)
  | waitUnlock (i : Fin n)
  | returned
  deriving DecidableEq

/-- What the master calls. A pointer may be null. -/
inductive GroupCall (n : Nat)
  | setTask (i : Fin n) (task : Option TaskId)
  | setTaskParam (i : Fin n) (param : Option Nat)
  | runTaskWith (i : Fin n) (task : Option TaskId) (param : Option Nat)
  | runTask (i : Fin n)
  | waitAllTasks
  deriving DecidableEq

/-- The sub-thread that a call starts. -/
def GroupCall.runs {n : Nat} : GroupCall n → Option (Fin n)
  | .runTaskWith i _ _ | .runTask i => some i
  | _ => none

structure ThreadGroup (n : Nat) where
  isIdle : Fin n → Bool
  condWaitMutex : Fin n → Option Party
  pTask : Fin n → Option TaskId
  pParam : Fin n → Option Nat
  sub : Fin n → SubPc
  master : MasterPc n
  /-- The calls that the master has not begun. -/
  calls : List (GroupCall n)
  /-- How often `run_task` has found the sub-thread idle. -/
  started : Fin n → Nat
  /-- The bodies that have been executed, the last one first. -/
  executed : Fin n → List (TaskId × Nat)

namespace ThreadGroup

variable {n : Nat}

/-- The group after `init` and `start`, with a master that makes these calls. -/
def start (calls : List (GroupCall n)) : ThreadGroup n where
  isIdle := fun _ => true
  condWaitMutex := fun _ => none
  pTask := fun _ => none
  pParam := fun _ => none
  sub := fun _ => .top
  master := .call
  calls := calls
  started := fun _ => 0
  executed := fun _ => []

def setSub (s : ThreadGroup n) (i : Fin n) (pc : SubPc) : ThreadGroup n :=
  { s with sub := Function.update s.sub i pc }

def setMutex (s : ThreadGroup n) (i : Fin n) (owner : Option Party) : ThreadGroup n :=
  { s with condWaitMutex := Function.update s.condWaitMutex i owner }

def setIsIdle (s : ThreadGroup n) (i : Fin n) (idle : Bool) : ThreadGroup n :=
  { s with isIdle := Function.update s.isIdle i idle }

def setMaster (s : ThreadGroup n) (pc : MasterPc n) : ThreadGroup n := { s with master := pc }

def setTask (s : ThreadGroup n) (i : Fin n) (task : Option TaskId) : ThreadGroup n :=
  { s with pTask := Function.update s.pTask i task }

def setTaskParam (s : ThreadGroup n) (i : Fin n) (param : Option Nat) : ThreadGroup n :=
  { s with pParam := Function.update s.pParam i param }

/-- `pthread_mutex_lock`; it blocks while the mutex is held. -/
def mutexLock (s : ThreadGroup n) (i : Fin n) (p : Party) : Option (ThreadGroup n) :=
  if s.condWaitMutex i = none then some (s.setMutex i (some p)) else none

/-- `pthread_cond_signal` on `cond_go`. -/
def signalGo (s : ThreadGroup n) (i : Fin n) : ThreadGroup n :=
  if s.sub i = .wait then s.setSub i .woken else s

/-- `pthread_cond_signal` on `cond_finish`. -/
def signalFinish (s : ThreadGroup n) (i : Fin n) : ThreadGroup n :=
  if s.master = .waiting i then s.setMaster (.woken i .signal) else s

/-- `is_idle = false`. -/
def startTask (s : ThreadGroup n) (i : Fin n) : ThreadGroup n :=
  { s.setIsIdle i false with
    started := if s.isIdle i then Function.update s.started i (s.started i + 1) else s.started }

/-- `execute_task_body` returns. -/
def finishBody (s : ThreadGroup n) (i : Fin n) (task : TaskId) (param : Nat) : ThreadGroup n :=
  { s with executed := Function.update s.executed i ((task, param) :: s.executed i) }

/-- The master begins its next call. -/
def beginCall (s : ThreadGroup n) : GroupCall n → ThreadGroup n
  | .setTask i task => s.setTask i task
  | .setTaskParam i param => s.setTaskParam i param
  | .runTaskWith i task param => ((s.setTaskParam i param).setTask i task).setMaster (.runLock i)
  | .runTask i => s.setMaster (.runLock i)
  | .waitAllTasks => s.setMaster (.waitLock 0)

def masterStep (s : ThreadGroup n) : Option (ThreadGroup n) :=
  match s.master with
  | .call =>
    match s.calls with
    | [] => none
    | c :: calls => some ({ s with calls := calls }.beginCall c)
  | .runLock i => (s.mutexLock i .master).map fun s => s.setMaster (.runSet i)
  | .runSet i => some ((s.startTask i).setMaster (.runSignal i))
  | .runSignal i => some ((s.signalGo i).setMaster (.runUnlock i))
  | .runUnlock i => some ((s.setMutex i none).setMaster .call)
  | .waitLock k =>
    if h : k < n then (s.mutexLock ⟨k, h⟩ .master).map fun s => s.setMaster (.waitTest ⟨k, h⟩)
    else some (s.setMaster .returned)
  | .waitTest i =>
    if s.isIdle i then some (s.setMaster (.waitUnlock i))
    else some ((s.setMutex i none).setMaster (.waiting i))
  | .waiting _ => none
  | .woken i _ => (s.mutexLock i .master).map fun s => s.setMaster (.waitUnlock i)
  | .waitUnlock i => some ((s.setMutex i none).setMaster (.waitLock (i + 1)))
  | .returned => some (s.setMaster .call)

def subStep (s : ThreadGroup n) (i : Fin n) : Option (ThreadGroup n) :=
  match s.sub i with
  | .top => some (s.setSub i .lock)
  | .lock => (s.mutexLock i .subthread).map fun s => s.setSub i .test
  | .test =>
    if s.isIdle i then some ((s.setMutex i none).setSub i .wait) else some (s.setSub i .unlock)
  | .wait => none
  | .woken => (s.mutexLock i .subthread).map fun s => s.setSub i .test
  | .unlock => some ((s.setMutex i none).setSub i .enter)
  | .enter =>
    match s.pTask i, s.pParam i with
    | some task, some param => some (s.setSub i (.body task param))
    | _, _ => none
  | .body task param => some ((s.finishBody i task param).setSub i .lockEnd)
  | .lockEnd => (s.mutexLock i .subthread).map fun s => s.setSub i .setIdle
  | .setIdle => some ((s.setIsIdle i true).setSub i .signal)
  | .signal => some ((s.signalFinish i).setSub i .unlockEnd)
  | .unlockEnd => some ((s.setMutex i none).setSub i .top)

/-- A step of the master or of a sub-thread, or one of them wakes up without a signal. -/
inductive Act (n : Nat)
  | master
  | sub (i : Fin n)
  | wakeMaster
  | wakeSub (i : Fin n)
  deriving DecidableEq

def wakeMaster (s : ThreadGroup n) : Option (ThreadGroup n) :=
  match s.master with
  | .waiting i => some (s.setMaster (.woken i .spurious))
  | _ => none

def wakeSub (s : ThreadGroup n) (i : Fin n) : Option (ThreadGroup n) :=
  if s.sub i = .wait then some (s.setSub i .woken) else none

def act (s : ThreadGroup n) : Act n → Option (ThreadGroup n)
  | .master => s.masterStep
  | .sub i => s.subStep i
  | .wakeMaster => s.wakeMaster
  | .wakeSub i => s.wakeSub i

/-- The master does not come back from a wake-up without a signal to a sub-thread that is at
work. -/
def Sound (s : ThreadGroup n) (a : Act n) : Prop :=
  ∀ i, a = .master → s.master = .woken i .spurious → s.isIdle i = true

/-! ## What a step does -/

inductive MasterStep (s s' : ThreadGroup n) : Prop
  | begin (c : GroupCall n) (calls : List (GroupCall n)) (pc : s.master = .call)
      (head : s.calls = c :: calls) (eq : s' = { s with calls := calls }.beginCall c)
  | lockRun (i : Fin n) (pc : s.master = .runLock i) (free : s.condWaitMutex i = none)
      (eq : s' = (s.setMutex i (some .master)).setMaster (.runSet i))
  | set (i : Fin n) (pc : s.master = .runSet i)
      (eq : s' = (s.startTask i).setMaster (.runSignal i))
  | signal (i : Fin n) (pc : s.master = .runSignal i)
      (eq : s' = (s.signalGo i).setMaster (.runUnlock i))
  | unlockRun (i : Fin n) (pc : s.master = .runUnlock i)
      (eq : s' = (s.setMutex i none).setMaster .call)
  | lockWait (i : Fin n) (pc : s.master = .waitLock i) (free : s.condWaitMutex i = none)
      (eq : s' = (s.setMutex i (some .master)).setMaster (.waitTest i))
  | leave (k : Nat) (pc : s.master = .waitLock k) (last : n ≤ k) (eq : s' = s.setMaster .returned)
  | pass (i : Fin n) (pc : s.master = .waitTest i) (idle : s.isIdle i = true)
      (eq : s' = s.setMaster (.waitUnlock i))
  | wait (i : Fin n) (pc : s.master = .waitTest i) (work : s.isIdle i = false)
      (eq : s' = (s.setMutex i none).setMaster (.waiting i))
  | wake (i : Fin n) (wake : Wake) (pc : s.master = .woken i wake)
      (free : s.condWaitMutex i = none)
      (eq : s' = (s.setMutex i (some .master)).setMaster (.waitUnlock i))
  | unlockWait (i : Fin n) (pc : s.master = .waitUnlock i)
      (eq : s' = (s.setMutex i none).setMaster (.waitLock (i + 1)))
  | next (pc : s.master = .returned) (eq : s' = s.setMaster .call)

inductive SubStep (s s' : ThreadGroup n) (i : Fin n) : Prop
  | turn (pc : s.sub i = .top) (eq : s' = s.setSub i .lock)
  | lock (pc : s.sub i = .lock ∨ s.sub i = .woken) (free : s.condWaitMutex i = none)
      (eq : s' = (s.setMutex i (some .subthread)).setSub i .test)
  | wait (pc : s.sub i = .test) (idle : s.isIdle i = true)
      (eq : s' = (s.setMutex i none).setSub i .wait)
  | pass (pc : s.sub i = .test) (work : s.isIdle i = false) (eq : s' = s.setSub i .unlock)
  | unlock (pc : s.sub i = .unlock) (eq : s' = (s.setMutex i none).setSub i .enter)
  | enter (task : TaskId) (param : Nat) (pc : s.sub i = .enter) (ptask : s.pTask i = some task)
      (pparam : s.pParam i = some param) (eq : s' = s.setSub i (.body task param))
  | finish (task : TaskId) (param : Nat) (pc : s.sub i = .body task param)
      (eq : s' = (s.finishBody i task param).setSub i .lockEnd)
  | lockEnd (pc : s.sub i = .lockEnd) (free : s.condWaitMutex i = none)
      (eq : s' = (s.setMutex i (some .subthread)).setSub i .setIdle)
  | setIdle (pc : s.sub i = .setIdle) (eq : s' = (s.setIsIdle i true).setSub i .signal)
  | signal (pc : s.sub i = .signal) (eq : s' = (s.signalFinish i).setSub i .unlockEnd)
  | unlockEnd (pc : s.sub i = .unlockEnd) (eq : s' = (s.setMutex i none).setSub i .top)

variable {s s' : ThreadGroup n}

theorem mutexLock_eq_some {i : Fin n} {p : Party} (h : s.mutexLock i p = some s') :
    s.condWaitMutex i = none ∧ s' = s.setMutex i (some p) := by
  unfold mutexLock at h
  split at h
  · exact ⟨‹_›, (Option.some.inj h).symm⟩
  · cases h

theorem wakeMaster_eq_some (h : s.wakeMaster = some s') :
    ∃ i, s.master = .waiting i ∧ s' = s.setMaster (.woken i .spurious) := by
  unfold wakeMaster at h
  split at h
  · exact ⟨_, ‹_›, (Option.some.inj h).symm⟩
  · cases h

theorem wakeSub_eq_some {i : Fin n} (h : s.wakeSub i = some s') :
    s.sub i = .wait ∧ s' = s.setSub i .woken := by
  unfold wakeSub at h
  split at h
  · exact ⟨‹_›, (Option.some.inj h).symm⟩
  · cases h

theorem masterStep_cases (h : s.masterStep = some s') : MasterStep s s' := by
  unfold masterStep at h
  split at h
  · rename_i hpc
    split at h
    · cases h
    · rename_i c calls hcalls
      exact .begin c calls hpc hcalls (Option.some.inj h).symm
  · rename_i i hpc
    obtain ⟨s₁, hlock, rfl⟩ := Option.map_eq_some_iff.mp h
    obtain ⟨hfree, rfl⟩ := mutexLock_eq_some hlock
    exact .lockRun i hpc hfree rfl
  · rename_i i hpc
    exact .set i hpc (Option.some.inj h).symm
  · rename_i i hpc
    exact .signal i hpc (Option.some.inj h).symm
  · rename_i i hpc
    exact .unlockRun i hpc (Option.some.inj h).symm
  · rename_i k hpc
    split at h
    · rename_i hk
      obtain ⟨s₁, hlock, rfl⟩ := Option.map_eq_some_iff.mp h
      obtain ⟨hfree, rfl⟩ := mutexLock_eq_some hlock
      exact .lockWait ⟨k, hk⟩ hpc hfree rfl
    · exact .leave k hpc (Nat.le_of_not_lt ‹_›) (Option.some.inj h).symm
  · rename_i i hpc
    split at h
    · exact .pass i hpc ‹_› (Option.some.inj h).symm
    · exact .wait i hpc (Bool.eq_false_of_not_eq_true ‹_›) (Option.some.inj h).symm
  · cases h
  · rename_i i wake hpc
    obtain ⟨s₁, hlock, rfl⟩ := Option.map_eq_some_iff.mp h
    obtain ⟨hfree, rfl⟩ := mutexLock_eq_some hlock
    exact .wake i wake hpc hfree rfl
  · rename_i i hpc
    exact .unlockWait i hpc (Option.some.inj h).symm
  · rename_i hpc
    exact .next hpc (Option.some.inj h).symm

theorem subStep_cases {i : Fin n} (h : s.subStep i = some s') : SubStep s s' i := by
  unfold subStep at h
  split at h
  · exact .turn ‹_› (Option.some.inj h).symm
  · obtain ⟨s₁, hlock, rfl⟩ := Option.map_eq_some_iff.mp h
    obtain ⟨hfree, rfl⟩ := mutexLock_eq_some hlock
    exact .lock (Or.inl ‹_›) hfree rfl
  · rename_i hpc
    split at h
    · exact .wait hpc ‹_› (Option.some.inj h).symm
    · exact .pass hpc (Bool.eq_false_of_not_eq_true ‹_›) (Option.some.inj h).symm
  · cases h
  · obtain ⟨s₁, hlock, rfl⟩ := Option.map_eq_some_iff.mp h
    obtain ⟨hfree, rfl⟩ := mutexLock_eq_some hlock
    exact .lock (Or.inr ‹_›) hfree rfl
  · exact .unlock ‹_› (Option.some.inj h).symm
  · rename_i hpc
    split at h
    · exact .enter _ _ hpc ‹_› ‹_› (Option.some.inj h).symm
    · cases h
  · exact .finish _ _ ‹_› (Option.some.inj h).symm
  · obtain ⟨s₁, hlock, rfl⟩ := Option.map_eq_some_iff.mp h
    obtain ⟨hfree, rfl⟩ := mutexLock_eq_some hlock
    exact .lockEnd ‹_› hfree rfl
  · exact .setIdle ‹_› (Option.some.inj h).symm
  · exact .signal ‹_› (Option.some.inj h).symm
  · exact .unlockEnd ‹_› (Option.some.inj h).symm

/-! ## One sub-thread -/

/-- What the master does with one sub-thread. -/
inductive Role
  | away
  | runLock
  | runSet
  | runSignal
  | runUnlock
  | test
  | waiting
  | woken (wake : Wake)
  | unlock
  deriving DecidableEq

/-- The master is between taking and releasing the mutex. -/
def Role.holds : Role → Bool
  | .runSet | .runSignal | .runUnlock | .test | .unlock => true
  | _ => false

/-- What concerns one sub-thread. -/
structure Control where
  isIdle : Bool
  owner : Option Party
  sub : SubPc
  role : Role
  started : Nat
  executed : Nat

namespace Control

/-- What the master and the sub-thread do. -/
inductive Move (c : Control) : Control → Prop
  | call (at_ : c.role = .away) : Move c { c with role := .runLock }
  | lockRun (at_ : c.role = .runLock) (free : c.owner = none) :
      Move c { c with owner := some .master, role := .runSet }
  | set (at_ : c.role = .runSet) : Move c { c with
      isIdle := false
      role := .runSignal
      started := if c.isIdle then c.started + 1 else c.started }
  | signal (at_ : c.role = .runSignal) : Move c { c with
      sub := if c.sub = .wait then .woken else c.sub
      role := .runUnlock }
  | unlockRun (at_ : c.role = .runUnlock) : Move c { c with owner := none, role := .away }
  | lockWait (at_ : c.role = .away) (free : c.owner = none) :
      Move c { c with owner := some .master, role := .test }
  | pass (at_ : c.role = .test) (idle : c.isIdle = true) : Move c { c with role := .unlock }
  | wait (at_ : c.role = .test) (work : c.isIdle = false) :
      Move c { c with owner := none, role := .waiting }
  | wake (wake : Wake) (at_ : c.role = .woken wake) (free : c.owner = none)
      (sound : wake = .spurious → c.isIdle = true) :
      Move c { c with owner := some .master, role := .unlock }
  | unlockWait (at_ : c.role = .unlock) : Move c { c with owner := none, role := .away }
  | wakeMaster (at_ : c.role = .waiting) : Move c { c with role := .woken .spurious }
  | subTurn (at_ : c.sub = .top) : Move c { c with sub := .lock }
  | subLock (at_ : c.sub = .lock ∨ c.sub = .woken) (free : c.owner = none) :
      Move c { c with owner := some .subthread, sub := .test }
  | subWait (at_ : c.sub = .test) (idle : c.isIdle = true) :
      Move c { c with owner := none, sub := .wait }
  | subPass (at_ : c.sub = .test) (work : c.isIdle = false) : Move c { c with sub := .unlock }
  | subUnlock (at_ : c.sub = .unlock) : Move c { c with owner := none, sub := .enter }
  | subEnter (task : TaskId) (param : Nat) (at_ : c.sub = .enter) :
      Move c { c with sub := .body task param }
  | subFinish (task : TaskId) (param : Nat) (at_ : c.sub = .body task param) :
      Move c { c with sub := .lockEnd, executed := c.executed + 1 }
  | subLockEnd (at_ : c.sub = .lockEnd) (free : c.owner = none) :
      Move c { c with owner := some .subthread, sub := .setIdle }
  | subSetIdle (at_ : c.sub = .setIdle) : Move c { c with isIdle := true, sub := .signal }
  | subSignal (at_ : c.sub = .signal) : Move c { c with
      sub := .unlockEnd
      role := if c.role = .waiting then .woken .signal else c.role }
  | subUnlockEnd (at_ : c.sub = .unlockEnd) : Move c { c with owner := none, sub := .top }
  | wakeSub (at_ : c.sub = .wait) : Move c { c with sub := .woken }

/-- The mutex excludes the two, work in progress shows in the flag, and every start but the one
in progress has led to a body. -/
structure Inv (c : Control) : Prop where
  master : c.owner = some .master ↔ c.role.holds = true
  subthread : c.owner = some .subthread ↔ c.sub.holds = true
  busy : c.sub.busy = true → c.isIdle = false
  signal : c.sub = .signal → c.isIdle = true
  woken : c.role = .woken .signal → c.isIdle = true
  passing : c.role = .unlock → c.isIdle = true
  count : c.executed + (if c.isIdle = false ∧ c.sub.done = false then 1 else 0) = c.started

variable {c c' : Control}

theorem Inv.role_holds (h : c.Inv) (hmutex : c.owner ≠ some .master) : c.role.holds = false := by
  apply Bool.eq_false_of_not_eq_true
  rw [← h.master]
  exact hmutex

theorem Inv.sub_holds (h : c.Inv) (hmutex : c.owner ≠ some .subthread) : c.sub.holds = false := by
  apply Bool.eq_false_of_not_eq_true
  rw [← h.subthread]
  exact hmutex

/-- Only one of the two holds the mutex. -/
theorem Inv.excludes (h : c.Inv) (hrole : c.role.holds = true) : c.sub.holds = false := by
  apply h.sub_holds
  rw [h.master.mpr hrole]
  decide

/-! The master goes on, takes the mutex or releases it. -/

theorem Inv.setRole (h : c.Inv) {r : Role} (hholds : r.holds = c.role.holds)
    (hidle : r = .woken .signal ∨ r = .unlock → c.isIdle = true) :
    Inv { c with role := r } :=
  { h with
    master := by
      change c.owner = some .master ↔ r.holds = true
      rw [hholds]
      exact h.master
    woken := fun hr => hidle (Or.inl hr)
    passing := fun hr => hidle (Or.inr hr) }

theorem Inv.takeMaster (h : c.Inv) (hfree : c.owner = none) {r : Role} (hr : r.holds = true)
    (hidle : r = .unlock → c.isIdle = true) :
    Inv { c with owner := some .master, role := r } :=
  { h with
    master := iff_of_true rfl hr
    subthread := by
      have hsub := h.sub_holds (by rw [hfree]; exact nofun)
      apply iff_of_false
      · exact nofun
      · rw [hsub]
        exact Bool.false_ne_true
    woken := by
      rintro rfl
      cases hr
    passing := hidle }

theorem Inv.releaseMaster (h : c.Inv) (hrole : c.role.holds = true) {r : Role}
    (hr : r.holds = false) (hwoken : r ≠ .woken .signal) : Inv { c with owner := none, role := r } :=
  { h with
    master := by
      apply iff_of_false
      · exact nofun
      · change ¬ r.holds = true
        rw [hr]
        exact Bool.false_ne_true
    subthread := by
      apply iff_of_false
      · exact nofun
      · rw [h.excludes hrole]
        exact Bool.false_ne_true
    woken := fun hr => absurd hr hwoken
    passing := by
      rintro rfl
      cases hr }

/-! So does the sub-thread. -/

/-- The sub-thread goes on without finishing a body. -/
theorem Inv.count_of_done (h : c.Inv) {p : SubPc} (hdone : c.isIdle = false → p.done = c.sub.done) :
    c.executed + (if c.isIdle = false ∧ p.done = false then 1 else 0) = c.started := by
  have hcount := h.count
  by_cases hwork : c.isIdle = false
  · rw [hdone hwork]
    exact hcount
  · rw [if_neg fun hc => hwork hc.1] at hcount ⊢
    exact hcount

theorem Inv.setSub (h : c.Inv) {p : SubPc} (hholds : p.holds = c.sub.holds)
    (hbusy : p.busy = true → c.isIdle = false) (hsignal : p = .signal → c.isIdle = true)
    (hdone : c.isIdle = false → p.done = c.sub.done) : Inv { c with sub := p } :=
  { h with
    subthread := by
      change c.owner = some .subthread ↔ p.holds = true
      rw [hholds]
      exact h.subthread
    busy := hbusy
    signal := hsignal
    count := h.count_of_done hdone }

theorem Inv.takeSub (h : c.Inv) (hfree : c.owner = none) {p : SubPc} (hp : p.holds = true)
    (hbusy : p.busy = true → c.isIdle = false) (hsignal : p ≠ .signal)
    (hdone : c.isIdle = false → p.done = c.sub.done) :
    Inv { c with owner := some .subthread, sub := p } :=
  { h with
    master := by
      have hrole := h.role_holds (by rw [hfree]; exact nofun)
      apply iff_of_false
      · exact nofun
      · rw [hrole]
        exact Bool.false_ne_true
    subthread := iff_of_true rfl hp
    busy := hbusy
    signal := fun hp => absurd hp hsignal
    count := h.count_of_done hdone }

theorem Inv.releaseSub (h : c.Inv) (hsub : c.sub.holds = true) {p : SubPc} (hp : p.holds = false)
    (hbusy : p.busy = true → c.isIdle = false)
    (hdone : c.isIdle = false → p.done = c.sub.done) : Inv { c with owner := none, sub := p } :=
  { h with
    master := by
      have hrole := h.role_holds (by rw [h.subthread.mpr hsub]; exact nofun)
      apply iff_of_false
      · exact nofun
      · rw [hrole]
        exact Bool.false_ne_true
    subthread := by
      apply iff_of_false
      · exact nofun
      · change ¬ p.holds = true
        rw [hp]
        exact Bool.false_ne_true
    busy := hbusy
    signal := by
      rintro rfl
      cases hp
    count := h.count_of_done hdone }

/-- The flag is cleared by the master alone, with the mutex. -/
theorem Inv.set (h : c.Inv) (hrole : c.role = .runSet) : Inv { c with
    isIdle := false
    role := .runSignal
    started := if c.isIdle then c.started + 1 else c.started } := by
  have hout : c.sub.holds = false := h.excludes (by rw [hrole]; rfl)
  have hmaster := h.master
  rw [hrole] at hmaster
  refine ⟨hmaster, h.subthread, fun _ => rfl, ?_, nofun, nofun, ?_⟩
  · intro hsub
    rw [show c.sub = .signal from hsub] at hout
    cases hout
  · have hcount := h.count
    change c.executed + (if false = false ∧ c.sub.done = false then 1 else 0) =
      if c.isIdle then c.started + 1 else c.started
    cases hidle : c.isIdle with
    | true =>
        -- the sub-thread has nothing in work
        have hdone : c.sub.done = false := by
          apply Bool.eq_false_of_not_eq_true
          intro hdone
          have hbusy := h.busy (SubPc.busy_of_done hdone)
          rw [hidle] at hbusy
          cases hbusy
        rw [hidle] at hcount
        simp only [hdone, Bool.true_eq_false, false_and, if_false, true_and, if_true] at hcount ⊢
        omega
    | false =>
        rw [hidle] at hcount
        exact hcount

theorem Inv.setIdle (h : c.Inv) (hsub : c.sub = .setIdle) :
    Inv { c with isIdle := true, sub := .signal } := by
  have hmutex := h.subthread
  rw [hsub] at hmutex
  refine ⟨h.master, hmutex, nofun, fun _ => rfl, fun _ => rfl, fun _ => rfl, ?_⟩
  have hcount := h.count
  rw [hsub] at hcount
  simpa [SubPc.done] using hcount

theorem Move.inv (h : Move c c') (hinv : c.Inv) : c'.Inv := by
  cases h with
  | call hrole =>
      apply hinv.setRole
      · rw [hrole]
        rfl
      · exact nofun
  | lockRun hrole hfree => exact hinv.takeMaster hfree rfl nofun
  | set hrole => exact hinv.set hrole
  | signal hrole =>
      have hrun : Inv { c with role := .runUnlock } :=
        hinv.setRole (by rw [hrole]; rfl) nofun
      by_cases hwait : c.sub = .wait
      · rw [if_pos hwait]
        exact hrun.setSub (by rw [hwait]; rfl) nofun nofun (by rw [hwait]; exact fun _ => rfl)
      · rw [if_neg hwait]
        exact hrun
  | unlockRun hrole => exact hinv.releaseMaster (by rw [hrole]; rfl) rfl nofun
  | lockWait hrole hfree => exact hinv.takeMaster hfree rfl nofun
  | pass hrole hidle => exact hinv.setRole (by rw [hrole]; rfl) fun _ => hidle
  | wait hrole hwork => exact hinv.releaseMaster (by rw [hrole]; rfl) rfl nofun
  | wake wake hrole hfree hsound =>
      apply hinv.takeMaster hfree rfl
      intro _
      cases wake with
      | signal => exact hinv.woken hrole
      | spurious => exact hsound rfl
  | unlockWait hrole => exact hinv.releaseMaster (by rw [hrole]; rfl) rfl nofun
  | wakeMaster hrole => exact hinv.setRole (by rw [hrole]; rfl) nofun
  | subTurn hsub =>
      exact hinv.setSub (by rw [hsub]; rfl) nofun nofun (by rw [hsub]; exact fun _ => rfl)
  | subLock hsub hfree =>
      have hdone : c.sub.done = false := by rcases hsub with hsub | hsub <;> rw [hsub] <;> rfl
      exact hinv.takeSub hfree rfl nofun nofun fun _ => hdone.symm
  | subWait hsub hidle =>
      exact hinv.releaseSub (by rw [hsub]; rfl) rfl nofun (by rw [hsub]; exact fun _ => rfl)
  | subPass hsub hwork =>
      exact hinv.setSub (by rw [hsub]; rfl) (fun _ => hwork) nofun (by rw [hsub]; exact fun _ => rfl)
  | subUnlock hsub =>
      have hwork : c.isIdle = false := hinv.busy (by rw [hsub]; rfl)
      exact hinv.releaseSub (by rw [hsub]; rfl) rfl (fun _ => hwork)
        (by rw [hsub]; exact fun _ => rfl)
  | subEnter task param hsub =>
      have hwork : c.isIdle = false := hinv.busy (by rw [hsub]; rfl)
      exact hinv.setSub (by rw [hsub]; rfl) (fun _ => hwork) nofun (by rw [hsub]; exact fun _ => rfl)
  | subFinish task param hsub =>
      have hwork : c.isIdle = false := hinv.busy (by rw [hsub]; rfl)
      have hmutex := hinv.subthread
      have hcount := hinv.count
      rw [hsub] at hmutex hcount
      refine ⟨hinv.master, hmutex, fun _ => hwork, nofun, hinv.woken, hinv.passing, ?_⟩
      simpa [hwork, SubPc.done] using hcount
  | subLockEnd hsub hfree =>
      have hwork : c.isIdle = false := hinv.busy (by rw [hsub]; rfl)
      exact hinv.takeSub hfree rfl (fun _ => hwork) nofun (by rw [hsub]; exact fun _ => rfl)
  | subSetIdle hsub => exact hinv.setIdle hsub
  | subSignal hsub =>
      have hidle := hinv.signal hsub
      have hend : Inv { c with sub := .unlockEnd } :=
        hinv.setSub (by rw [hsub]; rfl) nofun nofun (by rw [hsub]; exact fun _ => rfl)
      by_cases hwaiting : c.role = .waiting
      · rw [if_pos hwaiting]
        exact hend.setRole (by rw [hwaiting]; rfl) fun _ => hidle
      · rw [if_neg hwaiting]
        exact hend
  | subUnlockEnd hsub =>
      exact hinv.releaseSub (by rw [hsub]; rfl) rfl nofun (by rw [hsub]; exact fun _ => rfl)
  | wakeSub hsub =>
      exact hinv.setSub (by rw [hsub]; rfl) nofun nofun (by rw [hsub]; exact fun _ => rfl)

end Control

/-! ## The moves of a step -/

/-- The sub-thread that the master is at, and what it does there. -/
def place : MasterPc n → Option (Fin n × Role)
  | .call | .waitLock _ | .returned => none
  | .runLock i => some (i, .runLock)
  | .runSet i => some (i, .runSet)
  | .runSignal i => some (i, .runSignal)
  | .runUnlock i => some (i, .runUnlock)
  | .waitTest i => some (i, .test)
  | .waiting i => some (i, .waiting)
  | .woken i wake => some (i, .woken wake)
  | .waitUnlock i => some (i, .unlock)

def roleAt (pc : MasterPc n) (j : Fin n) : Role :=
  match place pc with
  | some (i, r) => if i = j then r else .away
  | none => .away

theorem roleAt_self {pc : MasterPc n} {i : Fin n} {r : Role} (h : place pc = some (i, r)) :
    roleAt pc i = r := by
  unfold roleAt
  rw [h]
  exact if_pos rfl

theorem roleAt_of_ne {pc : MasterPc n} {i j : Fin n} {r : Role} (h : place pc = some (i, r))
    (hij : j ≠ i) : roleAt pc j = .away := by
  unfold roleAt
  rw [h]
  exact if_neg hij.symm

theorem roleAt_of_none {pc : MasterPc n} (h : place pc = none) (j : Fin n) :
    roleAt pc j = .away := by
  unfold roleAt
  rw [h]

theorem place_of_roleAt {pc : MasterPc n} {i : Fin n} (h : roleAt pc i ≠ .away) :
    place pc = some (i, roleAt pc i) := by
  cases hplace : place pc with
  | none => exact absurd (roleAt_of_none hplace i) h
  | some p =>
      by_cases hij : i = p.1
      · rw [hij, roleAt_self hplace]
      · exact absurd (roleAt_of_ne hplace hij) h

/-- The master is waiting if this is what it does with a sub-thread. -/
theorem eq_waiting {pc : MasterPc n} {i : Fin n} (h : roleAt pc i = .waiting) :
    pc = .waiting i := by
  have hplace : place pc = some (i, roleAt pc i) := by
    apply place_of_roleAt
    rw [h]
    exact nofun
  rw [h] at hplace
  cases pc <;> cases hplace
  rfl

def control (s : ThreadGroup n) (j : Fin n) : Control where
  isIdle := s.isIdle j
  owner := s.condWaitMutex j
  sub := s.sub j
  role := roleAt s.master j
  started := s.started j
  executed := (s.executed j).length

section Setters

variable {i j : Fin n}

theorem control_setMaster (pc : MasterPc n) (j : Fin n) :
    (s.setMaster pc).control j = { s.control j with role := roleAt pc j } := rfl

theorem control_setMaster_of_eq {pc : MasterPc n} (h : roleAt pc j = roleAt s.master j) :
    (s.setMaster pc).control j = s.control j := by
  unfold control setMaster
  simp only [h]

theorem control_setSub_self (p : SubPc) :
    (s.setSub i p).control i = { s.control i with sub := p } := by
  unfold control setSub
  simp only [Function.update_self]

theorem control_setSub_of_ne (hij : j ≠ i) (p : SubPc) :
    (s.setSub i p).control j = s.control j := by
  unfold control setSub
  simp only [Function.update_of_ne hij]

theorem control_setMutex_self (o : Option Party) :
    (s.setMutex i o).control i = { s.control i with owner := o } := by
  unfold control setMutex
  simp only [Function.update_self]

theorem control_setMutex_of_ne (hij : j ≠ i) (o : Option Party) :
    (s.setMutex i o).control j = s.control j := by
  unfold control setMutex
  simp only [Function.update_of_ne hij]

theorem control_setIsIdle_self (idle : Bool) :
    (s.setIsIdle i idle).control i = { s.control i with isIdle := idle } := by
  unfold control setIsIdle
  simp only [Function.update_self]

theorem control_setIsIdle_of_ne (hij : j ≠ i) (idle : Bool) :
    (s.setIsIdle i idle).control j = s.control j := by
  unfold control setIsIdle
  simp only [Function.update_of_ne hij]

theorem control_startTask_self : (s.startTask i).control i = { s.control i with
    isIdle := false
    started := if s.isIdle i then s.started i + 1 else s.started i } := by
  unfold startTask control setIsIdle
  simp only [Function.update_self]
  split
  · rw [Function.update_self]
  · rfl

theorem control_startTask_of_ne (hij : j ≠ i) : (s.startTask i).control j = s.control j := by
  unfold startTask control setIsIdle
  simp only [Function.update_of_ne hij]
  split
  · rw [Function.update_of_ne hij]
  · rfl

theorem control_finishBody_self (task : TaskId) (param : Nat) :
    (s.finishBody i task param).control i =
      { s.control i with executed := (s.control i).executed + 1 } := by
  unfold control finishBody
  simp only [Function.update_self, List.length_cons]

theorem control_finishBody_of_ne (hij : j ≠ i) (task : TaskId) (param : Nat) :
    (s.finishBody i task param).control j = s.control j := by
  unfold control finishBody
  simp only [Function.update_of_ne hij]

theorem control_signalGo_self : (s.signalGo i).control i =
    { s.control i with sub := if s.sub i = .wait then .woken else s.sub i } := by
  unfold signalGo
  split
  · exact control_setSub_self .woken
  · rfl

theorem control_signalGo_of_ne (hij : j ≠ i) : (s.signalGo i).control j = s.control j := by
  unfold signalGo
  split
  · exact control_setSub_of_ne hij .woken
  · rfl

/-- The signal reaches the master if it waits for this sub-thread. -/
theorem control_signalFinish_self : (s.signalFinish i).control i = { s.control i with
    role := if (s.control i).role = .waiting then .woken .signal else (s.control i).role } := by
  unfold signalFinish
  by_cases hmaster : s.master = .waiting i
  · have hrole : (s.control i).role = .waiting := by
      change roleAt s.master i = .waiting
      rw [hmaster, roleAt_self rfl]
    rw [if_pos hmaster, if_pos hrole, control_setMaster, roleAt_self (r := .woken .signal) rfl]
  · have hrole : (s.control i).role ≠ .waiting := fun hrole => hmaster (eq_waiting hrole)
    rw [if_neg hmaster, if_neg hrole]

theorem control_signalFinish_of_ne (hij : j ≠ i) :
    (s.signalFinish i).control j = s.control j := by
  unfold signalFinish
  split
  · rename_i hmaster
    apply control_setMaster_of_eq
    rw [hmaster]
    exact (roleAt_of_ne (r := .woken .signal) rfl hij).trans
      (roleAt_of_ne (r := .waiting) rfl hij).symm
  · rfl

end Setters

/-- The master begins or goes on at `i`: the other sub-threads do not see it. -/
theorem setMaster_move {s₁ : ThreadGroup n} {i : Fin n} {pc : MasterPc n} {r : Role}
    (hother : ∀ j ≠ i, s₁.control j = s.control j)
    (hold : ∀ j ≠ i, roleAt s.master j = .away) (hnew : place pc = some (i, r))
    (hmove : Control.Move (s.control i) { s₁.control i with role := r }) (j : Fin n) :
    (s₁.setMaster pc).control j = s.control j ∨
      Control.Move (s.control j) ((s₁.setMaster pc).control j) := by
  by_cases hij : j = i
  · subst hij
    right
    rw [control_setMaster, roleAt_self hnew]
    exact hmove
  · left
    have hsame : roleAt s₁.master j = roleAt s.master j := congrArg Control.role (hother j hij)
    rw [control_setMaster_of_eq, hother j hij]
    rw [hsame, hold j hij, roleAt_of_ne hnew hij]

/-- The master leaves `i`. -/
theorem leave_move {i : Fin n} {pc : MasterPc n} {r : Role} (hold : place s.master = some (i, r))
    (hnew : place pc = none)
    (hmove : Control.Move (s.control i) { s.control i with owner := none, role := .away })
    (j : Fin n) : ((s.setMutex i none).setMaster pc).control j = s.control j ∨
      Control.Move (s.control j) (((s.setMutex i none).setMaster pc).control j) := by
  by_cases hij : j = i
  · subst hij
    right
    rw [control_setMaster, control_setMutex_self, roleAt_of_none hnew]
    exact hmove
  · left
    rw [control_setMaster_of_eq, control_setMutex_of_ne hij]
    rw [show (s.setMutex i none).master = s.master from rfl, roleAt_of_ne hold hij,
      roleAt_of_none hnew]

theorem MasterStep.move (h : MasterStep s s')
    (hsound : ∀ i, s.master = .woken i .spurious → s.isIdle i = true) (j : Fin n) :
    s'.control j = s.control j ∨ Control.Move (s.control j) (s'.control j) := by
  have hat {i : Fin n} {r : Role} (hplace : place s.master = some (i, r)) :
      (s.control i).role = r ∧ ∀ j ≠ i, roleAt s.master j = .away :=
    ⟨roleAt_self hplace, fun j hij => roleAt_of_ne hplace hij⟩
  cases h with
  | begin c calls hpc _ heq =>
      subst heq
      have haway (j : Fin n) : roleAt s.master j = .away := by
        rw [hpc]
        rfl
      cases c with
      | setTask i task => exact Or.inl rfl
      | setTaskParam i param => exact Or.inl rfl
      | runTaskWith i task param =>
          exact setMaster_move (i := i) (fun _ _ => rfl) (fun j _ => haway j) (by rfl)
            (.call (haway i)) j
      | runTask i =>
          exact setMaster_move (i := i) (fun _ _ => rfl) (fun j _ => haway j) (by rfl)
            (.call (haway i)) j
      | waitAllTasks =>
          left
          exact control_setMaster_of_eq (haway j).symm
  | lockRun i hpc hfree heq =>
      subst heq
      obtain ⟨hrole, hold⟩ := hat (show place s.master = _ by rw [hpc]; rfl)
      exact setMaster_move (i := i) (fun j hij => control_setMutex_of_ne hij _) hold (by rfl)
        (by rw [control_setMutex_self]; exact .lockRun hrole hfree) j
  | set i hpc heq =>
      subst heq
      obtain ⟨hrole, hold⟩ := hat (show place s.master = _ by rw [hpc]; rfl)
      exact setMaster_move (i := i) (fun j hij => control_startTask_of_ne hij) hold (by rfl)
        (by rw [control_startTask_self]; exact .set hrole) j
  | signal i hpc heq =>
      subst heq
      obtain ⟨hrole, hold⟩ := hat (show place s.master = _ by rw [hpc]; rfl)
      exact setMaster_move (i := i) (fun j hij => control_signalGo_of_ne hij) hold (by rfl)
        (by rw [control_signalGo_self]; exact .signal hrole) j
  | unlockRun i hpc heq =>
      subst heq
      obtain ⟨hrole, -⟩ := hat (show place s.master = _ by rw [hpc]; rfl)
      exact leave_move (by rw [hpc]; rfl) rfl (.unlockRun hrole) j
  | lockWait i hpc hfree heq =>
      subst heq
      have haway (j : Fin n) : roleAt s.master j = .away := by
        rw [hpc]
        rfl
      exact setMaster_move (i := i) (fun j hij => control_setMutex_of_ne hij _)
        (fun j _ => haway j) (by rfl) (by rw [control_setMutex_self]; exact .lockWait (haway i) hfree) j
  | leave k hpc _ heq =>
      subst heq
      left
      apply control_setMaster_of_eq
      rw [hpc]
      rfl
  | pass i hpc hidle heq =>
      subst heq
      obtain ⟨hrole, hold⟩ := hat (show place s.master = _ by rw [hpc]; rfl)
      exact setMaster_move (i := i) (fun _ _ => rfl) hold (by rfl) (.pass hrole hidle) j
  | wait i hpc hwork heq =>
      subst heq
      obtain ⟨hrole, hold⟩ := hat (show place s.master = _ by rw [hpc]; rfl)
      exact setMaster_move (i := i) (fun j hij => control_setMutex_of_ne hij _) hold (by rfl)
        (by rw [control_setMutex_self]; exact .wait hrole hwork) j
  | wake i wake hpc hfree heq =>
      subst heq
      obtain ⟨hrole, hold⟩ := hat (show place s.master = _ by rw [hpc]; rfl)
      have hwake : wake = .spurious → s.isIdle i = true := by
        rintro rfl
        exact hsound i hpc
      exact setMaster_move (i := i) (fun j hij => control_setMutex_of_ne hij _) hold (by rfl)
        (by rw [control_setMutex_self]; exact .wake wake hrole hfree hwake) j
  | unlockWait i hpc heq =>
      subst heq
      obtain ⟨hrole, -⟩ := hat (show place s.master = _ by rw [hpc]; rfl)
      exact leave_move (by rw [hpc]; rfl) rfl (.unlockWait hrole) j
  | next hpc heq =>
      subst heq
      left
      apply control_setMaster_of_eq
      rw [hpc]
      rfl

/-- The sub-thread moves on at `i`. -/
theorem setSub_move {s₁ : ThreadGroup n} {i : Fin n} {p : SubPc}
    (hother : ∀ j ≠ i, s₁.control j = s.control j)
    (hmove : Control.Move (s.control i) { s₁.control i with sub := p }) (j : Fin n) :
    (s₁.setSub i p).control j = s.control j ∨
      Control.Move (s.control j) ((s₁.setSub i p).control j) := by
  by_cases hij : j = i
  · subst hij
    right
    rw [control_setSub_self]
    exact hmove
  · left
    rw [control_setSub_of_ne hij, hother j hij]

theorem SubStep.move {i : Fin n} (h : SubStep s s' i) (j : Fin n) :
    s'.control j = s.control j ∨ Control.Move (s.control j) (s'.control j) := by
  cases h with
  | turn hpc heq =>
      subst heq
      exact setSub_move (fun _ _ => rfl) (.subTurn hpc) j
  | lock hpc hfree heq =>
      subst heq
      exact setSub_move (fun j hij => control_setMutex_of_ne hij _)
        (by rw [control_setMutex_self]; exact .subLock hpc hfree) j
  | wait hpc hidle heq =>
      subst heq
      exact setSub_move (fun j hij => control_setMutex_of_ne hij _)
        (by rw [control_setMutex_self]; exact .subWait hpc hidle) j
  | pass hpc hwork heq =>
      subst heq
      exact setSub_move (fun _ _ => rfl) (.subPass hpc hwork) j
  | unlock hpc heq =>
      subst heq
      exact setSub_move (fun j hij => control_setMutex_of_ne hij _)
        (by rw [control_setMutex_self]; exact .subUnlock hpc) j
  | enter task param hpc _ _ heq =>
      subst heq
      exact setSub_move (fun _ _ => rfl) (.subEnter task param hpc) j
  | finish task param hpc heq =>
      subst heq
      exact setSub_move (fun j hij => control_finishBody_of_ne hij task param)
        (by rw [control_finishBody_self]; exact .subFinish task param hpc) j
  | lockEnd hpc hfree heq =>
      subst heq
      exact setSub_move (fun j hij => control_setMutex_of_ne hij _)
        (by rw [control_setMutex_self]; exact .subLockEnd hpc hfree) j
  | setIdle hpc heq =>
      subst heq
      exact setSub_move (fun j hij => control_setIsIdle_of_ne hij true)
        (by rw [control_setIsIdle_self]; exact .subSetIdle hpc) j
  | signal hpc heq =>
      subst heq
      exact setSub_move (fun j hij => control_signalFinish_of_ne hij)
        (by rw [control_signalFinish_self]; exact .subSignal hpc) j
  | unlockEnd hpc heq =>
      subst heq
      exact setSub_move (fun j hij => control_setMutex_of_ne hij _)
        (by rw [control_setMutex_self]; exact .subUnlockEnd hpc) j

/-- Every step is a move of one sub-thread at most. -/
theorem act_move {a : Act n} (h : s.act a = some s') (hsound : s.Sound a) (j : Fin n) :
    s'.control j = s.control j ∨ Control.Move (s.control j) (s'.control j) := by
  cases a with
  | master => exact (masterStep_cases h).move (fun i hi => hsound i rfl hi) j
  | sub i => exact (subStep_cases h).move j
  | wakeMaster =>
      obtain ⟨i, hpc, rfl⟩ := wakeMaster_eq_some h
      have hplace : place s.master = some (i, .waiting) := by
        rw [hpc]
        rfl
      exact setMaster_move (i := i) (fun _ _ => rfl) (fun j hij => roleAt_of_ne hplace hij)
        (by rfl) (.wakeMaster (roleAt_self hplace)) j
  | wakeSub i =>
      obtain ⟨hpc, rfl⟩ := wakeSub_eq_some h
      exact setSub_move (fun _ _ => rfl) (.wakeSub hpc) j

/-! ## Runs -/

/-- A step of a run in which no wake-up without a signal lets the master pass. -/
def SoundStep (s s' : ThreadGroup n) : Prop := ∃ a, s.Sound a ∧ s.act a = some s'

abbrev SoundRun : ThreadGroup n → ThreadGroup n → Prop := Relation.ReflTransGen SoundStep

/-- Between two rounds: nothing is in work. -/
def Quiet (s : ThreadGroup n) : Prop := ∀ i, (s.control i).Inv ∧ s.isIdle i = true

theorem quiet_start (calls : List (GroupCall n)) : (start calls).Quiet := by
  intro i
  refine ⟨?_, rfl⟩
  constructor
  · exact iff_of_false nofun nofun
  · exact iff_of_false nofun nofun
  · exact nofun
  · exact nofun
  · exact nofun
  · exact nofun
  · rfl

theorem inv_run {s₀ : ThreadGroup n} (hquiet : s₀.Quiet) (h : SoundRun s₀ s) (j : Fin n) :
    (s.control j).Inv := by
  induction h with
  | refl => exact (hquiet j).1
  | tail _ hstep ih =>
      obtain ⟨a, hsound, hact⟩ := hstep
      rcases act_move hact hsound j with hsame | hmove
      · rw [hsame]
        exact ih
      · exact hmove.inv ih

instance (s : ThreadGroup n) (a : Act n) : Decidable (s.Sound a) :=
  inferInstanceAs (Decidable (∀ i, a = .master → s.master = .woken i .spurious → s.isIdle i = true))

/-- The acts of one run; with `sound`, no other steps than those of a `SoundRun`. -/
def runActs (sound : Bool) (s : ThreadGroup n) : List (Act n) → Option (ThreadGroup n)
  | [] => some s
  | a :: acts =>
    if sound = false ∨ s.Sound a then (s.act a).bind fun s => s.runActs sound acts else none

theorem isRun_runActs (sound : Bool) :
    IsRun (fun (s : ThreadGroup n) a => if sound = false ∨ s.Sound a then s.act a else none)
      (runActs sound) :=
  .checked (fun _ => rfl) fun _ _ _ => rfl

theorem soundRun_of_runActs {acts : List (Act n)} (h : s.runActs true acts = some s') :
    SoundRun s s' := by
  refine (isRun_runActs true).path ?_ h
  intro s a s' hact
  obtain ⟨hsound, hact⟩ := Option.ite_none_right_eq_some.mp hact
  exact ⟨a, hsound.resolve_left nofun, hact⟩

/-! ## A round -/

def inWait : MasterPc n → Bool
  | .call | .runLock _ | .runSet _ | .runSignal _ | .runUnlock _ => false
  | _ => true

/-- How many sub-threads the loop of `wait_all_tasks` has passed. -/
def passed : MasterPc n → Nat
  | .waitLock k => k
  | .waitTest i | .waiting i | .woken i _ | .waitUnlock i => i
  | .returned => n
  | _ => 0

/-- A round that began in `s₀`, with the calls `runs` and then `wait_all_tasks`. -/
structure Round (s₀ : ThreadGroup n) (runs rest : List (GroupCall n)) (s : ThreadGroup n) :
    Prop where
  passed : ∀ j : Fin n, j < passed s.master → s.isIdle j = true
  mono : ∀ i, s₀.started i ≤ s.started i
  work : ∀ i, s.isIdle i = false → s₀.started i < s.started i
  runs : ∀ i, (∃ c ∈ runs, c.runs = some i) → s₀.started i < s.started i ∨
    s.master = .runLock i ∨ s.master = .runSet i ∨
    ∃ left, s.calls = left ++ .waitAllTasks :: rest ∧ ∃ c ∈ left, c.runs = some i
  calls : (inWait s.master = false ∧
    ∃ left, s.calls = left ++ .waitAllTasks :: rest ∧ ∀ c ∈ left, c ≠ .waitAllTasks) ∨
    s.calls.length ≤ rest.length

section Round

variable {s₀ : ThreadGroup n} {runs rest : List (GroupCall n)}

theorem Round.start (hquiet : s₀.Quiet) (hmaster : s₀.master = .call)
    (hruns : ∀ c ∈ runs, c ≠ .waitAllTasks) (hcalls : s₀.calls = runs ++ .waitAllTasks :: rest) :
    Round s₀ runs rest s₀ where
  passed := fun j _ => (hquiet j).2
  mono := fun _ => Nat.le_refl _
  work := by
    intro i hwork
    rw [(hquiet i).2] at hwork
    cases hwork
  runs := fun i hi => Or.inr (Or.inr (Or.inr ⟨runs, hcalls, hi⟩))
  calls := by
    left
    rw [hmaster]
    exact ⟨rfl, runs, hcalls, hruns⟩

/-- A step that starts nothing and begins no call. -/
theorem Round.keep (h : Round s₀ runs rest s) (hidle : ∀ i, s.isIdle i = true → s'.isIdle i = true)
    (hstarted : s'.started = s.started) (hcalls : s'.calls = s.calls)
    (hpassed : ∀ j : Fin n, j < ThreadGroup.passed s'.master →
      j < ThreadGroup.passed s.master ∨ s.isIdle j = true)
    (hwait : inWait s.master = false → inWait s'.master = false)
    (hrun : ∀ i, s.master = .runLock i ∨ s.master = .runSet i →
      s'.master = .runLock i ∨ s'.master = .runSet i) : Round s₀ runs rest s' where
  passed := by
    intro j hj
    apply hidle
    rcases hpassed j hj with hlt | hidle
    · exact h.passed j hlt
    · exact hidle
  mono := by
    rw [hstarted]
    exact h.mono
  work := by
    intro i hwork
    rw [hstarted]
    apply h.work
    apply Bool.eq_false_of_not_eq_true
    intro hi
    rw [hidle i hi] at hwork
    cases hwork
  runs := by
    intro i hi
    rw [hstarted, hcalls]
    rcases h.runs i hi with hlt | hlock | hset | hleft
    · exact Or.inl hlt
    · exact Or.inr (or_assoc.mp (Or.inl (hrun i (Or.inl hlock))))
    · exact Or.inr (or_assoc.mp (Or.inl (hrun i (Or.inr hset))))
    · exact Or.inr (Or.inr (Or.inr hleft))
  calls := by
    rw [hcalls]
    exact h.calls.imp (fun hc => ⟨hwait hc.1, hc.2⟩) id

theorem passed_of_outside {pc : MasterPc n} (h : inWait pc = false) :
    ThreadGroup.passed pc = 0 := by
  cases pc with
  | call | runLock | runSet | runSignal | runUnlock => rfl
  | _ => cases h

/-- A step to a place outside `wait_all_tasks`. -/
theorem Round.outside (h : Round s₀ runs rest s)
    (hidle : ∀ i, s.isIdle i = true → s'.isIdle i = true) (hstarted : s'.started = s.started)
    (hcalls : s'.calls = s.calls) (hout : inWait s'.master = false)
    (hrun : ∀ i, s.master = .runLock i ∨ s.master = .runSet i →
      s'.master = .runLock i ∨ s'.master = .runSet i) : Round s₀ runs rest s' := by
  refine h.keep hidle hstarted hcalls ?_ (fun _ => hout) hrun
  intro j hj
  rw [passed_of_outside hout] at hj
  exact absurd hj (Nat.not_lt_zero j)

/-- A step within `wait_all_tasks` that passes no sub-thread. -/
theorem Round.inside (h : Round s₀ runs rest s) (hidle : s'.isIdle = s.isIdle)
    (hstarted : s'.started = s.started) (hcalls : s'.calls = s.calls)
    (hin : inWait s.master = true)
    (hpassed : ThreadGroup.passed s'.master ≤ ThreadGroup.passed s.master) :
    Round s₀ runs rest s' := by
  refine h.keep (fun j hj => (congrFun hidle j).trans hj) hstarted hcalls ?_ ?_ ?_
  · exact fun j hj => Or.inl (Nat.lt_of_lt_of_le hj hpassed)
  · intro hout
    rw [hin] at hout
    cases hout
  · rintro i (hpc | hpc)
    · rw [hpc] at hin
      cases hin
    · rw [hpc] at hin
      cases hin

/-- `run_task` clears the flag. -/
theorem Round.set (h : Round s₀ runs rest s) {i : Fin n} (hpc : s.master = .runSet i) :
    Round s₀ runs rest ((s.startTask i).setMaster (.runSignal i)) := by
  have hlt : s₀.started i < ((s.startTask i).setMaster (.runSignal i)).started i := by
    have hle := h.mono i
    cases hidle : s.isIdle i with
    | true =>
        change _ < (if s.isIdle i then Function.update s.started i (s.started i + 1)
          else s.started) i
        rw [if_pos hidle, Function.update_self]
        omega
    | false =>
        change _ < (if s.isIdle i then Function.update s.started i (s.started i + 1)
          else s.started) i
        rw [if_neg (by rw [hidle]; exact Bool.false_ne_true)]
        exact h.work i hidle
  have hother (j : Fin n) (hij : j ≠ i) :
      ((s.startTask i).setMaster (.runSignal i)).started j = s.started j := by
    exact congrArg Control.started (control_startTask_of_ne (s := s) hij)
  refine ⟨fun j hj => absurd hj (Nat.not_lt_zero j), fun j => ?_, fun j hwork => ?_,
    fun j hj => ?_, ?_⟩
  · by_cases hij : j = i
    · rw [hij]
      exact Nat.le_of_lt hlt
    · rw [hother j hij]
      exact h.mono j
  · by_cases hij : j = i
    · rw [hij]
      exact hlt
    · rw [hother j hij]
      apply h.work
      rw [← hwork]
      exact (congrArg Control.isIdle (control_startTask_of_ne (s := s) hij)).symm
  · by_cases hij : j = i
    · rw [hij]
      exact Or.inl hlt
    · rw [hother j hij]
      rcases h.runs j hj with hlt | hlock | hset | hleft
      · exact Or.inl hlt
      · rw [hpc] at hlock
        cases hlock
      · rw [hpc] at hset
        cases hset
        exact absurd rfl hij
      · exact Or.inr (Or.inr (Or.inr hleft))
  · rcases h.calls with ⟨-, hleft⟩ | hle
    · exact Or.inl ⟨rfl, hleft⟩
    · exact Or.inr hle

theorem beginCall_spec (s : ThreadGroup n) (c : GroupCall n) :
    (s.beginCall c).isIdle = s.isIdle ∧ (s.beginCall c).started = s.started ∧
      (s.beginCall c).calls = s.calls ∧ (s.master = .call → passed (s.beginCall c).master = 0) ∧
      (s.master = .call → c ≠ .waitAllTasks → inWait (s.beginCall c).master = false) ∧
      ∀ i, c.runs = some i → (s.beginCall c).master = .runLock i := by
  cases c with
  | setTask i task =>
      refine ⟨rfl, rfl, rfl, fun hpc => ?_, fun hpc _ => ?_, nofun⟩
      · exact congrArg passed hpc
      · exact congrArg inWait hpc
  | setTaskParam i param =>
      refine ⟨rfl, rfl, rfl, fun hpc => ?_, fun hpc _ => ?_, nofun⟩
      · exact congrArg passed hpc
      · exact congrArg inWait hpc
  | runTaskWith i task param =>
      refine ⟨rfl, rfl, rfl, fun _ => rfl, fun _ _ => rfl, fun j hj => ?_⟩
      cases hj
      rfl
  | runTask i =>
      refine ⟨rfl, rfl, rfl, fun _ => rfl, fun _ _ => rfl, fun j hj => ?_⟩
      cases hj
      rfl
  | waitAllTasks => exact ⟨rfl, rfl, rfl, fun _ => rfl, fun _ hne => absurd rfl hne, nofun⟩

theorem Round.begin (h : Round s₀ runs rest s) {c : GroupCall n} {calls : List (GroupCall n)}
    (hpc : s.master = .call) (hhead : s.calls = c :: calls) :
    Round s₀ runs rest ({ s with calls := calls }.beginCall c) := by
  obtain ⟨hidle, hstarted, hcalls, hpassed, hwait, hruns⟩ :=
    beginCall_spec { s with calls := calls } c
  constructor
  · intro j hj
    rw [hpassed hpc] at hj
    exact absurd hj (Nat.not_lt_zero j)
  · rw [hstarted]
    exact h.mono
  · rw [hstarted, hidle]
    exact h.work
  · intro i hi
    rw [hstarted, hcalls]
    rcases h.runs i hi with hlt | hlock | hset | ⟨left, hleft, c', hc', hrun⟩
    · exact Or.inl hlt
    · rw [hpc] at hlock
      cases hlock
    · rw [hpc] at hset
      cases hset
    · cases left with
      | nil => cases hc'
      | cons c₁ left =>
          obtain ⟨rfl, rfl⟩ := List.cons_eq_cons.mp (hhead.symm.trans hleft)
          rcases List.mem_cons.mp hc' with rfl | hmem
          · exact Or.inr (Or.inl (hruns i hrun))
          · exact Or.inr (Or.inr (Or.inr ⟨left, rfl, c', hmem, hrun⟩))
  · rw [hcalls]
    rcases h.calls with ⟨-, left, hleft, hne⟩ | hle
    · cases left with
      | nil =>
          obtain ⟨rfl, rfl⟩ := List.cons_eq_cons.mp (hhead.symm.trans hleft)
          exact Or.inr (Nat.le_refl _)
      | cons c₁ left =>
          obtain ⟨rfl, rfl⟩ := List.cons_eq_cons.mp (hhead.symm.trans hleft)
          left
          exact ⟨hwait hpc (hne c List.mem_cons_self), left, rfl,
            fun c' hc' => hne c' (List.mem_cons_of_mem c hc')⟩
    · right
      rw [hhead] at hle
      exact Nat.le_of_succ_le hle

theorem Round.masterStep (h : Round s₀ runs rest s) (hinv : ∀ j, (s.control j).Inv)
    (hstep : MasterStep s s') : Round s₀ runs rest s' := by
  cases hstep with
  | begin c calls hpc hhead heq =>
      rw [heq]
      exact h.begin hpc hhead
  | lockRun i hpc _ heq =>
      rw [heq]
      refine h.outside (fun _ => id) rfl rfl rfl ?_
      intro j hj
      rw [hpc] at hj
      rcases hj with hj | hj
      · cases hj
        exact Or.inr rfl
      · cases hj
  | set i hpc heq =>
      rw [heq]
      exact h.set hpc
  | signal i hpc heq =>
      rw [heq]
      have hsame : (s.signalGo i).isIdle = s.isIdle ∧ (s.signalGo i).started = s.started ∧
          (s.signalGo i).calls = s.calls := by
        unfold signalGo
        split
        · exact ⟨rfl, rfl, rfl⟩
        · exact ⟨rfl, rfl, rfl⟩
      refine h.outside (fun j hj => (congrFun hsame.1 j).trans hj) hsame.2.1 hsame.2.2 rfl ?_
      rw [hpc]
      exact nofun
  | unlockRun i hpc heq =>
      rw [heq]
      refine h.outside (fun _ => id) rfl rfl rfl ?_
      rw [hpc]
      exact nofun
  | lockWait i hpc _ heq =>
      rw [heq]
      refine h.inside rfl rfl rfl ?_ ?_ <;> rw [hpc]
      · rfl
      · exact Nat.le_refl _
  | leave k hpc hlast heq =>
      rw [heq]
      refine h.inside rfl rfl rfl ?_ ?_ <;> rw [hpc]
      · rfl
      · exact hlast
  | pass i hpc _ heq =>
      rw [heq]
      refine h.inside rfl rfl rfl ?_ ?_ <;> rw [hpc]
      · rfl
      · exact Nat.le_refl _
  | wait i hpc _ heq =>
      rw [heq]
      refine h.inside rfl rfl rfl ?_ ?_ <;> rw [hpc]
      · rfl
      · exact Nat.le_refl _
  | wake i wake hpc _ heq =>
      rw [heq]
      refine h.inside rfl rfl rfl ?_ ?_ <;> rw [hpc]
      · rfl
      · exact Nat.le_refl _
  | unlockWait i hpc heq =>
      rw [heq]
      refine h.keep (fun _ => id) rfl rfl ?_ ?_ ?_ <;> rw [hpc]
      · intro j hj
        rcases Nat.lt_succ_iff_lt_or_eq.mp hj with hlt | heq
        · exact Or.inl hlt
        · right
          rw [Fin.ext heq]
          apply (hinv i).passing
          change roleAt s.master i = .unlock
          rw [hpc, roleAt_self rfl]
      · exact nofun
      · exact nofun
  | next hpc heq =>
      rw [heq]
      refine h.outside (fun _ => id) rfl rfl rfl ?_
      rw [hpc]
      exact nofun

/-- Besides the master, a step only sets flags and wakes the master up. -/
theorem Round.other (h : Round s₀ runs rest s) (hidle : ∀ i, s.isIdle i = true → s'.isIdle i = true)
    (hstarted : s'.started = s.started) (hcalls : s'.calls = s.calls)
    (hmaster : s'.master = s.master ∨
      ∃ i wake, s.master = .waiting i ∧ s'.master = .woken i wake) : Round s₀ runs rest s' := by
  refine h.keep hidle hstarted hcalls ?_ ?_ ?_ <;>
    rcases hmaster with hsame | ⟨i, wake, hpc, hpc'⟩
  · rw [hsame]
    exact fun j hj => Or.inl hj
  · rw [hpc, hpc']
    exact fun j hj => Or.inl hj
  · rw [hsame]
    exact id
  · rw [hpc]
    exact nofun
  · rw [hsame]
    exact fun _ => id
  · rw [hpc]
    exact nofun

theorem Round.subStep (h : Round s₀ runs rest s) {i : Fin n} (hstep : SubStep s s' i) :
    Round s₀ runs rest s' := by
  have hsame (pc : SubPc) : Round s₀ runs rest (s.setSub i pc) :=
    h.other (fun _ => id) rfl rfl (Or.inl rfl)
  have hmutex (o : Option Party) (pc : SubPc) : Round s₀ runs rest ((s.setMutex i o).setSub i pc) :=
    h.other (fun _ => id) rfl rfl (Or.inl rfl)
  cases hstep with
  | turn _ heq => rw [heq]; exact hsame _
  | lock _ _ heq => rw [heq]; exact hmutex _ _
  | wait _ _ heq => rw [heq]; exact hmutex _ _
  | pass _ _ heq => rw [heq]; exact hsame _
  | unlock _ heq => rw [heq]; exact hmutex _ _
  | enter _ _ _ _ _ heq => rw [heq]; exact hsame _
  | finish task param _ heq =>
      rw [heq]
      exact h.other (fun _ => id) rfl rfl (Or.inl rfl)
  | lockEnd _ _ heq => rw [heq]; exact hmutex _ _
  | setIdle _ heq =>
      rw [heq]
      refine h.other (fun j hj => ?_) rfl rfl (Or.inl rfl)
      change Function.update s.isIdle i true j = true
      by_cases hij : j = i
      · rw [hij, Function.update_self]
      · rw [Function.update_of_ne hij]
        exact hj
  | signal _ heq =>
      rw [heq]
      unfold signalFinish
      split
      · exact h.other (fun _ => id) rfl rfl (Or.inr ⟨i, .signal, ‹_›, rfl⟩)
      · exact hsame _
  | unlockEnd _ heq => rw [heq]; exact hmutex _ _

theorem Round.act (h : Round s₀ runs rest s) (hinv : ∀ j, (s.control j).Inv) {a : Act n}
    (hact : s.act a = some s') : Round s₀ runs rest s' := by
  cases a with
  | master => exact h.masterStep hinv (masterStep_cases hact)
  | sub i => exact h.subStep (subStep_cases hact)
  | wakeMaster =>
      obtain ⟨i, hpc, rfl⟩ := wakeMaster_eq_some hact
      exact h.other (fun _ => id) rfl rfl (Or.inr ⟨i, .spurious, hpc, rfl⟩)
  | wakeSub i =>
      obtain ⟨-, rfl⟩ := wakeSub_eq_some hact
      exact h.other (fun _ => id) rfl rfl (Or.inl rfl)

theorem round_run (h : Round s₀ runs rest s₀) (hquiet : s₀.Quiet) (hrun : SoundRun s₀ s) :
    Round s₀ runs rest s := by
  induction hrun with
  | refl => exact h
  | tail hrun hstep ih =>
      obtain ⟨a, -, hact⟩ := hstep
      exact ih.act (inv_run hquiet hrun) hact

/-- When `wait_all_tasks` returns, all sub-threads are idle, no body is being executed, and the
sub-threads that the calls before it have started have executed bodies since. -/
theorem wait_all_tasks_barrier (hquiet : s₀.Quiet) (hmaster : s₀.master = .call)
    (hruns : ∀ c ∈ runs, c ≠ .waitAllTasks) (hcalls : s₀.calls = runs ++ .waitAllTasks :: rest)
    (hrun : SoundRun s₀ s) (hreturn : s.master = .returned) :
    s.Quiet ∧ ∀ i, (s.sub i).busy = false ∧ (s.executed i).length = s.started i ∧
      ((∃ c ∈ runs, c.runs = some i) → (s₀.executed i).length < (s.executed i).length) := by
  have hround := round_run (.start hquiet hmaster hruns hcalls) hquiet hrun
  have hinv := inv_run hquiet hrun
  have hidle (i : Fin n) : s.isIdle i = true := by
    apply hround.passed
    rw [hreturn]
    exact i.isLt
  have hcount {t : ThreadGroup n} {i : Fin n} (hinv : (t.control i).Inv)
      (hidle : t.isIdle i = true) : (t.executed i).length = t.started i := by
    have hcount := hinv.count
    rw [if_neg (by rw [show (t.control i).isIdle = true from hidle]; exact nofun)] at hcount
    exact hcount
  refine ⟨fun i => ⟨hinv i, hidle i⟩, fun i => ⟨?_, hcount (hinv i) (hidle i), fun hi => ?_⟩⟩
  · apply Bool.eq_false_of_not_eq_true
    intro hbusy
    have hwork := (hinv i).busy hbusy
    rw [show (s.control i).isIdle = true from hidle i] at hwork
    cases hwork
  · rw [hcount (hinv i) (hidle i), hcount (hquiet i).1 (hquiet i).2]
    rcases hround.runs i hi with hlt | hlock | hset | ⟨left, hleft, -⟩
    · exact hlt
    · rw [hreturn] at hlock
      cases hlock
    · rw [hreturn] at hset
      cases hset
    · -- the call of `wait_all_tasks` is not ahead any more
      rcases hround.calls with ⟨hwait, -⟩ | hle
      · rw [hreturn] at hwait
        cases hwait
      · rw [hleft, List.length_append, List.length_cons] at hle
        omega

/-- One sub-thread with one task: the master waits, and the sub-thread wakes it up. -/
theorem wait_all_tasks_barrier_one : ∃ s : ThreadGroup 1,
    SoundRun (start [.runTaskWith (Fin.last 0) (some 1) (some 7), .waitAllTasks]) s ∧
      s.master = .returned ∧ s.Quiet ∧ 0 < (s.executed (Fin.last 0)).length := by
  let sub : Act 1 := .sub (Fin.last 0)
  have hmaster : ((runActs true
      (start [.runTaskWith (Fin.last 0) (some 1) (some 7), .waitAllTasks])
      [sub, sub, sub, .master, .master, .master, .master, .master, sub, sub, sub, sub, .master,
        .master, .master, sub, sub, sub, sub, sub, .master, .master, .master]).map
      (·.master)) = some .returned := by decide
  obtain ⟨s, hs, hreturn⟩ := Option.map_eq_some_iff.mp hmaster
  have hrun := soundRun_of_runActs hs
  have hone : ∀ c ∈ [GroupCall.runTaskWith (Fin.last 0) (some 1) (some 7)], c ≠ .waitAllTasks := by
    decide
  have hcalls : (start [.runTaskWith (Fin.last 0) (some 1) (some 7), .waitAllTasks]).calls =
      [.runTaskWith (Fin.last 0) (some 1) (some 7)] ++ .waitAllTasks :: [] := rfl
  obtain ⟨hquiet, hall⟩ := wait_all_tasks_barrier (quiet_start _) rfl hone hcalls hrun hreturn
  refine ⟨s, hrun, hreturn, hquiet, ?_⟩
  exact Nat.lt_of_le_of_lt (Nat.zero_le _)
    ((hall (Fin.last 0)).2.2 ⟨_, List.mem_cons_self, rfl⟩)

/-- A wake-up without a signal: `wait_all_tasks` returns while the body is being executed. -/
theorem wait_all_tasks_returns_early : ∃ acts s,
    runActs false (start [.runTaskWith (Fin.last 0) (some 1) (some 7), .waitAllTasks]) acts =
        some s ∧
      s.master = .returned ∧ s.isIdle (Fin.last 0) = false ∧
      s.sub (Fin.last 0) = .body 1 7 := by
  let sub : Act 1 := .sub (Fin.last 0)
  have hend : ((runActs false
      (start [.runTaskWith (Fin.last 0) (some 1) (some 7), .waitAllTasks])
      [sub, sub, sub, .master, .master, .master, .master, .master, sub, sub, sub, sub, .master,
        .master, .master, .wakeMaster, .master, .master, .master]).map
      fun s => (s.master, s.isIdle (Fin.last 0), s.sub (Fin.last 0))) =
        some (.returned, false, .body 1 7) := by decide
  obtain ⟨s, hs, hend⟩ := Option.map_eq_some_iff.mp hend
  obtain ⟨hreturn, hrest⟩ := Prod.mk.inj hend
  exact ⟨_, s, hs, hreturn, Prod.mk.inj hrest⟩

end Round

end ThreadGroup

end AceMesh
