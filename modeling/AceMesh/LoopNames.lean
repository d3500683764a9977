import AceMesh.Keeping

/-!
# Loop names

The `DEBUG_GRAPH` build counts the loops in `dag_graph_check` and gives the count to the tasks
of a loop; `execute` prints the name that `loop_names` has at this place. `reset_task_graph`
clears `loop_names` after every run, but the count is only reset where the graph is printed, and
a stored graph keeps its counts. The names are right as long as the two are in step when a graph
is run (`loop_names_in_step`).

The program is the one of `Session`, with the fields that the build adds. Left out are the
merging of tuples, which decides about edges and not about loops, and the check of a graph, of
which only the reset of the count matters here. The `end_task` is the `empty_task` of the other
builds: what its constructor leaves in `reused` decides only whether a stored graph without a
task can be resumed, and that run would execute nothing.
-/

open AceMesh.TaskDagGraph AceMesh.Runtime

namespace AceMesh

/-- `dag_graph_check`. -/
structure DagGraphCheck where
  loopInfos : List String
  loopId : Nat
  taskId : Nat

namespace DagGraphCheck

def addLoopInfo (c : DagGraphCheck) (loopName : String) : DagGraphCheck where
  loopInfos := c.loopInfos ++ [loopName]
  loopId := c.loopId + 1
  taskId := 0

def clear (_ : DagGraphCheck) : DagGraphCheck := ⟨[], 0, 0⟩

/-- The numbers that `set_task_loop_id` writes into the task. -/
def setTaskLoopId (c : DagGraphCheck) : (Nat × Nat) × DagGraphCheck :=
  ((c.loopId, c.taskId), { c with taskId := c.taskId + 1 })

end DagGraphCheck

structure DebugSession (m : Nat) where
  session : Session m
  graphCheck : DagGraphCheck
  /-- `aceMesh_task::loop_names`. -/
  loopNames : List String
  gPrintGraph : Bool
  /-- `loop_id` and `task_id` of the tasks. -/
  ids : TaskId → Nat × Nat
  /-- The name given to the last `begin_split_task`. No step of the code reads this, nor the two
  fields below. -/
  loop : String
  /-- The names of the loops of the tasks. -/
  nameOf : TaskId → String
  /-- The names of the loops before the `spawn_and_wait` that stored a graph. -/
  storedNames : Int → List String

namespace DebugSession

variable {m : Nat}

/-- The objects of the program are zero at its start. -/
def start : DebugSession m where
  session := Session.start
  graphCheck := ⟨[], 0, 0⟩
  loopNames := []
  gPrintGraph := false
  ids := fun _ => (0, 0)
  loop := ""
  nameOf := fun _ => ""
  storedNames := fun _ => []

/-- A step of a thread, or a call of the program. `loopInfo` is `none` for the unnamed loop, and
`printGraph` says which `spawn_and_wait` is called. -/
inductive Act (m : Nat)
  | thread (i : Fin (m + 1)) (hit : Bool)
  | beginSplitTask (loopInfo : Option String)
  | registerTask (spec : TaskSpec)
  | endSplitTask
  | dagStart (dagNo : Int) (intVec : List Int) (floatVec : List Double)
  | spawnAndWait (printGraph : Bool)

/-- A step of a thread. The main thread comes back to the program through `reset_task_graph`. -/
def thread (d : DebugSession m) (i : Fin (m + 1)) (hit : Bool) : Option (DebugSession m) :=
  (d.session.act (.thread i hit)).map fun s =>
    { d with
      session := s
      loopNames :=
        if d.session.runtime.main ≠ .prog ∧ s.runtime.main = .prog then [] else d.loopNames }

def beginSplitTask (d : DebugSession m) (loopInfo : Option String) : Option (DebugSession m) :=
  let loopInfo := loopInfo.getD "loop_no_name"
  (d.session.act (.call (.build (.beginSplitTaskNamed (m + 1))))).map fun s =>
    { d with
      session := s
      loopNames := d.loopNames ++ [loopInfo]
      graphCheck := d.graphCheck.addLoopInfo loopInfo
      loop := loopInfo }

def registerTask (d : DebugSession m) (spec : TaskSpec) : Option (DebugSession m) :=
  (d.session.act (.call (.build (.registerTask spec)))).map fun s =>
    { d with
      session := s
      graphCheck := d.graphCheck.setTaskLoopId.2
      ids := Function.update d.ids d.session.graph.fresh d.graphCheck.setTaskLoopId.1
      nameOf := Function.update d.nameOf d.session.graph.fresh d.loop }

/-- The end of `end_construct_dag`. -/
def checkGraph (d : DebugSession m) : DebugSession m :=
  if d.gPrintGraph then { d with graphCheck := d.graphCheck.clear, gPrintGraph := false } else d

/-- `spawn_and_wait`, or `spawn_and_wait(print_graph)`, up to the call of `spawn`. -/
def toSpawn (d : DebugSession m) (printGraph : Bool) : DebugSession m :=
  let d := if printGraph then { d with gPrintGraph := true } else d
  if d.session.kind = .resumed then d else d.checkGraph

/-- Up to the first root that is pushed. -/
def spawnAndWait (d : DebugSession m) (printGraph : Bool) : Option (DebugSession m) :=
  let d := d.toSpawn printGraph
  (d.session.act (.call .spawnAndWait)).map fun s =>
    { d with
      session := s
      storedNames :=
        if d.session.kind = .stored then
          Function.update d.storedNames d.session.graph.reuse.currDagNo d.loopNames
        else d.storedNames }

def act (d : DebugSession m) : Act m → Option (DebugSession m)
  | .thread i hit => d.thread i hit
  | .beginSplitTask loopInfo => d.beginSplitTask loopInfo
  | .registerTask spec => d.registerTask spec
  | .endSplitTask =>
    (d.session.act (.call (.build .endSplitTask))).map fun s => { d with session := s }
  | .dagStart dagNo intVec floatVec =>
    (d.session.act (.call (.dagStart dagNo intVec floatVec))).map fun s => { d with session := s }
  | .spawnAndWait printGraph => d.spawnAndWait printGraph

/-- The states that a program can reach by acts that meet a condition. -/
inductive Reached (ok : DebugSession m → Act m → Prop) : DebugSession m → Prop
  | start : Reached ok start
  | act {d d' : DebugSession m} {a : Act m} :
      Reached ok d → ok d a → d.act a = some d' → Reached ok d'

/-- A thread is in `aceMesh_task::execute` of the task, where the name is printed. -/
def Executes (d : DebugSession m) (t : TaskId) : Prop := ∃ i, d.session.runtime.pc i = .restore t

/-- `loop_names[loop_id - 1]` is in range and the name of the task's loop. -/
def ReadsName (d : DebugSession m) (t : TaskId) : Prop :=
  0 < (d.ids t).1 ∧ d.loopNames[(d.ids t).1 - 1]? = some (d.nameOf t)

/-- A graph with tasks is run as it is built only if the loops counted are those in
`loop_names`, and is resumed only after loops with the names that it was stored from. -/
def InStep (d : DebugSession m) : Act m → Prop
  | .spawnAndWait _ =>
    if d.session.kind = .resumed then
      ∀ tasks, storedTasks d.session.graph.reuse.currDagNo d.session.calls = some tasks →
        tasks ≠ [] → d.storedNames d.session.graph.reuse.currDagNo <+: d.loopNames
    else tasksSince d.session.calls ≠ [] → d.graphCheck.loopId = d.loopNames.length
  | _ => True

/-! ## The acts of the session -/

variable {d d' : DebugSession m} {s s' : Session m}

theorem call_of_act {c : ProgramCall} (hact : s.act (.call c) = some s') :
    s.runtime.main = .prog ∧ s.call c = some s' := by
  have hcall : s.call c = some s' := hact
  refine ⟨?_, hcall⟩
  by_contra hm
  unfold Session.call at hcall
  rw [if_neg hm] at hcall
  cases hcall

theorem build_of_act {c : BuildCall} (hact : s.act (.call (.build c)) = some s') :
    s.runtime.main = .prog ∧ s.build c = some s' := by
  obtain ⟨hm, hcall⟩ := call_of_act hact
  unfold Session.call at hcall
  rw [if_pos hm] at hcall
  exact ⟨hm, hcall⟩

theorem begin_of_act (hact : s.act (.call (.build (.beginSplitTaskNamed (m + 1)))) = some s') :
    s' = { s.setGraph (s.graph.beginSplitTaskNamed (m + 1)) with looping := true } := by
  obtain ⟨_, hbuild⟩ := build_of_act hact
  cases hloop : s.looping with
  | true => simp [Session.build, hloop] at hbuild
  | false =>
      simp only [Session.build, hloop, if_true] at hbuild
      exact (Option.some.inj hbuild).symm

theorem register_of_act {spec : TaskSpec}
    (hact : s.act (.call (.build (.registerTask spec))) = some s') :
    s.looping = true ∧ s' = { s.setGraph (s.graph.taskGenerator spec) with
      calls := .task s.graph.fresh :: s.calls } := by
  obtain ⟨_, hbuild⟩ := build_of_act hact
  cases hloop : s.looping with
  | true =>
      simp only [Session.build, hloop] at hbuild
      exact ⟨rfl, (Option.some.inj hbuild).symm⟩
  | false => simp [Session.build, hloop] at hbuild

theorem end_of_act (hact : s.act (.call (.build .endSplitTask)) = some s') :
    s' = { s.setGraph s.graph.endSplitTask with looping := false } := by
  obtain ⟨_, hbuild⟩ := build_of_act hact
  cases hloop : s.looping with
  | true =>
      simp only [Session.build, hloop] at hbuild
      exact (Option.some.inj hbuild).symm
  | false => simp [Session.build, hloop] at hbuild

theorem dagStart_of_act {dagNo : Int} {intVec : List Int} {floatVec : List Double}
    (hact : s.act (.call (.dagStart dagNo intVec floatVec)) = some s') :
    s.looping = false ∧ s' = s.dagStart dagNo intVec floatVec := by
  obtain ⟨hm, hcall⟩ := call_of_act hact
  unfold Session.call at hcall
  rw [if_pos hm] at hcall
  obtain ⟨hloop, hstart⟩ := Option.ite_none_left_eq_some.mp hcall
  exact ⟨Bool.eq_false_of_not_eq_true hloop, (Option.some.inj hstart).symm⟩

theorem spawn_of_act (hact : s.act (.call .spawnAndWait) = some s') :
    s.looping = false ∧ s.spawnAndWait = some s' := by
  obtain ⟨hm, hcall⟩ := call_of_act hact
  unfold Session.call at hcall
  rw [if_pos hm] at hcall
  obtain ⟨hloop, hspawn⟩ := Option.ite_none_left_eq_some.mp hcall
  exact ⟨Bool.eq_false_of_not_eq_true hloop, hspawn⟩

/-- A task that is to be registered is none of the tasks known. -/
theorem tasks_lt_fresh (hinv : s.Inv) (hm : s.runtime.main = .prog) {t : TaskId} :
    (t ∈ tasksSince s.calls → t < s.graph.fresh) ∧
    ∀ no tasks, storedTasks no s.calls = some tasks → t ∈ tasks → t < s.graph.fresh := by
  obtain ⟨lo, base, hbetween⟩ := hinv.between hm
  have hle : base ≤ s.graph.fresh := hbetween.looped.lo_le
  constructor
  · intro ht
    rw [hbetween.since] at ht
    exact (mem_interval.mp ht).2
  · intro no tasks htasks ht
    cases hinst : s.graph.reuse.dagInstanceMap no with
    | none =>
        rw [hbetween.shelf.missing no hinst] at htasks
        cases htasks
    | some inst =>
        obtain ⟨_, hlt, hstored⟩ := hbetween.shelf.tasks no inst hinst
        obtain rfl := Option.some.inj (hstored.symm.trans htasks)
        have hend := (mem_interval.mp ht).2
        lia

/-- The task in `execute` belongs to the graph that is run. -/
theorem running_of_executes (hinv : d.session.Inv) {t : TaskId} (ht : d.Executes t) :
    d.session.runtime.main ≠ .prog ∧
      ∃ tasks, runningTasks d.session.calls = some tasks ∧ t ∈ tasks := by
  obtain ⟨i, hi⟩ := ht
  obtain ⟨lo, base, hbetween⟩ | ⟨lo, a, e, hduring⟩ := hinv
  · exact absurd (Or.inr hi) ((hbetween.after.idle.resting i).outside t)
  · obtain hin | ⟨_, hollow⟩ := hduring.round
    · refine ⟨?_, _, hduring.running, ?_⟩
      · intro hm
        have hwaits := hduring.waits
        rw [hm] at hwaits
        cases hwaits
      · have hmem := hin.round.running i t (Or.inr hi)
        exact mem_interval.mpr (Finset.mem_Ico.mp hmem)
    · exact absurd (Or.inr hi) ((hollow.idle.resting i).outside t)

/-! ## The names -/

/-- What the counts of the tasks stand for: a place in the loops since the last run, a name among
those that a graph was stored from, and during a run a place in `loop_names`. -/
structure Named (d : DebugSession m) : Prop where
  counted : d.session.runtime.main = .prog → ∀ t ∈ tasksSince d.session.calls, ∃ k,
    d.loopNames[k]? = some (d.nameOf t) ∧
      (d.ids t).1 + d.loopNames.length = k + 1 + d.graphCheck.loopId
  looping : d.session.looping = true → d.loopNames.getLast? = some d.loop
  stored : ∀ no tasks, storedTasks no d.session.calls = some tasks → ∀ t ∈ tasks,
    0 < (d.ids t).1 ∧ (d.storedNames no)[(d.ids t).1 - 1]? = some (d.nameOf t)
  running : d.session.runtime.main ≠ .prog → ∀ tasks,
    runningTasks d.session.calls = some tasks → ∀ t ∈ tasks, d.ReadsName t

theorem named_start : Named (start : DebugSession m) := by
  constructor
  case counted => exact fun _ t ht => absurd ht List.not_mem_nil
  case looping => exact fun h => Bool.noConfusion h
  case stored =>
    intro no tasks h
    cases h
  case running => exact fun h => absurd rfl h

theorem Named.thread (h : Named d) (hinv : d.session.Inv) {i : Fin (m + 1)} {hit : Bool}
    (hact : d.thread i hit = some d') : Named d' := by
  obtain ⟨s, hs, rfl⟩ := Option.map_eq_some_iff.mp hact
  obtain ⟨r, hr, rfl⟩ := Option.map_eq_some_iff.mp hs
  have hmove := step_move hinv.inside hr
  by_cases hm : d.session.runtime.main = .prog
  · -- between two runs
    have hm' := hmove.prog hm
    have hnames : ¬(d.session.runtime.main ≠ .prog ∧ r.main = .prog) := fun hbad => hbad.1 hm
    dsimp only
    rw [if_neg hnames]
    exact ⟨fun _ => h.counted hm, h.looping, h.stored, fun hbad => absurd hm' hbad⟩
  · obtain ⟨lo, a, e, hduring⟩ := hinv.during hm
    have hloop : d.session.looping ≠ true := by
      rw [hduring.looping]
      exact Bool.false_ne_true
    constructor
    case counted =>
      intro _ t ht
      obtain ⟨no, kind, calls, hcalls, _⟩ := hduring.current
      change t ∈ tasksSince d.session.calls at ht
      rw [hcalls] at ht
      cases ht
    case looping => exact fun hbad => absurd hbad hloop
    case stored => exact h.stored
    case running =>
      intro hm' tasks htasks t ht
      have hnames : ¬(d.session.runtime.main ≠ .prog ∧ r.main = .prog) := fun hbad => hm' hbad.2
      unfold ReadsName
      dsimp only
      rw [if_neg hnames]
      exact h.running hm tasks htasks t ht

theorem Named.beginSplitTask (h : Named d) {loopInfo : Option String}
    (hact : d.beginSplitTask loopInfo = some d') : Named d' := by
  obtain ⟨s, hs, rfl⟩ := Option.map_eq_some_iff.mp hact
  have hm := (build_of_act hs).1
  obtain rfl := begin_of_act hs
  constructor
  case counted =>
    intro _ t ht
    obtain ⟨k, hname, hcount⟩ := h.counted hm t ht
    refine ⟨k, ?_, ?_⟩
    · obtain ⟨hlt, _⟩ := List.getElem?_eq_some_iff.mp hname
      change (d.loopNames ++ _)[k]? = _
      rw [List.getElem?_append_left hlt]
      exact hname
    · change (d.ids t).1 + (d.loopNames ++ _).length = k + 1 + (d.graphCheck.loopId + 1)
      rw [List.length_append, List.length_singleton]
      omega
  case looping => exact fun _ => List.getLast?_concat
  case stored => exact h.stored
  case running => exact fun hbad => absurd hm hbad

theorem Named.registerTask (h : Named d) (hinv : d.session.Inv) {spec : TaskSpec}
    (hact : d.registerTask spec = some d') : Named d' := by
  obtain ⟨s, hs, rfl⟩ := Option.map_eq_some_iff.mp hact
  have hm := (build_of_act hs).1
  obtain ⟨hloop, rfl⟩ := register_of_act hs
  have hfresh (t : TaskId) := @tasks_lt_fresh m d.session hinv hm t
  have hlast := h.looping hloop
  constructor
  case counted =>
    intro _ t ht
    dsimp only
    rcases List.mem_cons.mp ht with rfl | ht
    · -- the new task is of the last loop
      rw [List.getLast?_eq_getElem?] at hlast
      obtain ⟨hlt, _⟩ := List.getElem?_eq_some_iff.mp hlast
      refine ⟨d.loopNames.length - 1, ?_, ?_⟩
      · rw [Function.update_self]
        exact hlast
      · rw [Function.update_self]
        change d.graphCheck.loopId + _ = _ + 1 + d.graphCheck.loopId
        omega
    · have hne : t ≠ d.session.graph.fresh := ((hfresh t).1 ht).ne
      rw [Function.update_of_ne hne, Function.update_of_ne hne]
      exact h.counted hm t ht
  case looping => exact fun _ => hlast
  case stored =>
    intro no tasks htasks t ht
    have hne : t ≠ d.session.graph.fresh := ((hfresh t).2 no tasks htasks ht).ne
    dsimp only
    rw [Function.update_of_ne hne, Function.update_of_ne hne]
    exact h.stored no tasks htasks t ht
  case running => exact fun hbad => absurd hm hbad

/-- Calls that neither register nor run tasks. -/
theorem Named.sameTasks (h : Named d) (hmain : s.runtime.main = d.session.runtime.main)
    (hloop : s.looping = false) (hsince : tasksSince s.calls = tasksSince d.session.calls)
    (hstored : ∀ no, storedTasks no s.calls = storedTasks no d.session.calls)
    (hrunning : runningTasks s.calls = runningTasks d.session.calls) :
    Named { d with session := s } := by
  constructor
  case counted =>
    intro hm t ht
    exact h.counted (hmain ▸ hm) t (hsince ▸ ht)
  case looping =>
    intro hbad
    change s.looping = true at hbad
    rw [hloop] at hbad
    cases hbad
  case stored =>
    intro no tasks htasks
    exact h.stored no tasks ((hstored no).symm.trans htasks)
  case running =>
    intro hm tasks htasks
    exact h.running (fun hbad => hm (hmain.trans hbad)) tasks (hrunning.symm.trans htasks)

theorem toSpawn_frame (d : DebugSession m) (printGraph : Bool) :
    (d.toSpawn printGraph).session = d.session ∧
      (d.toSpawn printGraph).loopNames = d.loopNames ∧ (d.toSpawn printGraph).ids = d.ids ∧
      (d.toSpawn printGraph).nameOf = d.nameOf ∧
      (d.toSpawn printGraph).storedNames = d.storedNames := by
  have hcheck (d : DebugSession m) : d.checkGraph.session = d.session ∧
      d.checkGraph.loopNames = d.loopNames ∧ d.checkGraph.ids = d.ids ∧
      d.checkGraph.nameOf = d.nameOf ∧ d.checkGraph.storedNames = d.storedNames := by
    unfold checkGraph
    split <;> exact ⟨rfl, rfl, rfl, rfl, rfl⟩
  unfold toSpawn
  cases printGraph with
  | true =>
      simp only [if_true]
      split
      · exact ⟨rfl, rfl, rfl, rfl, rfl⟩
      · exact hcheck { d with gPrintGraph := true }
  | false =>
      simp only [Bool.false_eq_true, if_false]
      split
      · exact ⟨rfl, rfl, rfl, rfl, rfl⟩
      · exact hcheck d

/-- What a call of `spawn_and_wait` leaves alone. -/
theorem spawnAndWait_frame {printGraph : Bool}
    (hact : d.spawnAndWait printGraph = some d') :
    d.session.act (.call .spawnAndWait) = some d'.session ∧
      d'.loopNames = d.loopNames ∧ d'.ids = d.ids ∧ d'.nameOf = d.nameOf ∧
      d'.storedNames = if d.session.kind = .stored then
        Function.update d.storedNames d.session.graph.reuse.currDagNo d.loopNames
        else d.storedNames := by
  obtain ⟨hsession, hnames, hids, hnameOf, hstored⟩ := toSpawn_frame d printGraph
  obtain ⟨s, hs, rfl⟩ := Option.map_eq_some_iff.mp hact
  dsimp only
  rw [hsession] at hs ⊢
  rw [hnames, hstored]
  exact ⟨hs, rfl, hids, hnameOf, rfl⟩

/-- The tasks of a graph that has been built have their places in `loop_names`. -/
theorem Named.reads_built (h : Named d) (hm : d.session.runtime.main = .prog) {printGraph : Bool}
    (hok : d.InStep (.spawnAndWait printGraph))
    (hkind : d.session.kind ≠ .resumed) {t : TaskId} (ht : t ∈ tasksSince d.session.calls) :
    d.ReadsName t := by
  obtain ⟨k, hname, hcount⟩ := h.counted hm t ht
  unfold InStep at hok
  rw [if_neg hkind] at hok
  have hstep := hok (List.ne_nil_of_mem ht)
  have hid : (d.ids t).1 = k + 1 := by omega
  unfold ReadsName
  rw [hid]
  exact ⟨Nat.succ_pos k, hname⟩

theorem Named.reads_resumed (h : Named d) {printGraph : Bool}
    (hok : d.InStep (.spawnAndWait printGraph)) (hkind : d.session.kind = .resumed)
    {tasks : List TaskId}
    (htasks : storedTasks d.session.graph.reuse.currDagNo d.session.calls = some tasks)
    {t : TaskId} (ht : t ∈ tasks) : d.ReadsName t := by
  obtain ⟨hpos, hname⟩ := h.stored _ tasks htasks t ht
  unfold InStep at hok
  rw [if_pos hkind] at hok
  obtain ⟨rest, hrest⟩ := hok tasks htasks (List.ne_nil_of_mem ht)
  obtain ⟨hlt, _⟩ := List.getElem?_eq_some_iff.mp hname
  refine ⟨hpos, ?_⟩
  rw [← hrest, List.getElem?_append_left hlt]
  exact hname

theorem Named.spawnAndWait (h : Named d) (hinv : d.session.Inv) {printGraph : Bool}
    (hok : d.InStep (.spawnAndWait printGraph))
    (hact : d.spawnAndWait printGraph = some d') : Named d' := by
  obtain ⟨hs, hnames, hids, hnameOf, hstoredNames⟩ := spawnAndWait_frame hact
  obtain ⟨hloop, hspawn⟩ := spawn_of_act hs
  have hm := (call_of_act hs).1
  obtain ⟨lo, base, hbetween⟩ := hinv.between hm
  obtain ⟨lo', a, e, hduring⟩ := hbetween.spawnAndWait hloop hspawn
  have hcalls := (Session.spawnAndWait_reuse hspawn).1
  have hmain : d'.session.runtime.main ≠ .prog := by
    intro hbad
    have hwaits := hduring.waits
    rw [hbad] at hwaits
    cases hwaits
  have hreads (t : TaskId) : d'.ReadsName t ↔ d.ReadsName t := by
    unfold ReadsName
    rw [hnames, hids, hnameOf]
  constructor
  case counted => exact fun hbad => absurd hbad hmain
  case looping =>
    intro hbad
    rw [hduring.looping] at hbad
    cases hbad
  case stored =>
    intro no tasks htasks t ht
    rw [hcalls] at htasks
    rw [hids, hnameOf, hstoredNames]
    cases hkind : d.session.kind with
    | built =>
        rw [hkind] at htasks
        exact h.stored no tasks htasks t ht
    | resumed =>
        rw [hkind] at htasks
        exact h.stored no tasks htasks t ht
    | stored =>
        rw [hkind] at htasks
        unfold storedTasks at htasks
        rw [if_pos rfl]
        by_cases hno : d.session.graph.reuse.currDagNo = no
        · rw [if_pos hno] at htasks
          obtain rfl := Option.some.inj htasks
          rw [← hno, Function.update_self]
          exact h.reads_built hm hok (by simp [hkind]) ht
        · rw [if_neg hno] at htasks
          rw [Function.update_of_ne (Ne.symm hno)]
          exact h.stored no tasks htasks t ht
  case running =>
    intro _ tasks htasks t ht
    rw [hcalls] at htasks
    rw [hreads]
    cases hkind : d.session.kind with
    | built =>
        rw [hkind] at htasks
        obtain rfl := Option.some.inj htasks
        exact h.reads_built hm hok (by simp [hkind]) ht
    | stored =>
        rw [hkind] at htasks
        obtain rfl := Option.some.inj htasks
        exact h.reads_built hm hok (by simp [hkind]) ht
    | resumed =>
        rw [hkind] at htasks
        exact h.reads_resumed hok hkind htasks ht

theorem act_session {a : Act m} (hact : d.act a = some d') :
    ∃ b, d.session.act b = some d'.session := by
  cases a with
  | thread i hit =>
      obtain ⟨s, hs, rfl⟩ := Option.map_eq_some_iff.mp hact
      exact ⟨_, hs⟩
  | beginSplitTask loopInfo =>
      obtain ⟨s, hs, rfl⟩ := Option.map_eq_some_iff.mp hact
      exact ⟨_, hs⟩
  | registerTask spec =>
      obtain ⟨s, hs, rfl⟩ := Option.map_eq_some_iff.mp hact
      exact ⟨_, hs⟩
  | endSplitTask =>
      obtain ⟨s, hs, rfl⟩ := Option.map_eq_some_iff.mp hact
      exact ⟨_, hs⟩
  | dagStart dagNo intVec floatVec =>
      obtain ⟨s, hs, rfl⟩ := Option.map_eq_some_iff.mp hact
      exact ⟨_, hs⟩
  | spawnAndWait printGraph => exact ⟨_, (spawnAndWait_frame hact).1⟩

theorem Reached.inv {ok : DebugSession m → Act m → Prop} (h : Reached ok d) :
    d.session.Inv := by
  induction h with
  | start => exact Or.inl ⟨_, _, Session.between_start⟩
  | act _ _ hact ih =>
      obtain ⟨b, hb⟩ := act_session hact
      exact ih.act hb

theorem Reached.named (h : Reached InStep d) : Named d := by
  induction h with
  | start => exact named_start
  | @act d d' a hreached hok hact ih =>
      cases a with
      | thread i hit => exact ih.thread hreached.inv hact
      | beginSplitTask loopInfo => exact ih.beginSplitTask hact
      | registerTask spec => exact ih.registerTask hreached.inv hact
      | endSplitTask =>
          obtain ⟨s, hs, rfl⟩ := Option.map_eq_some_iff.mp hact
          obtain rfl := end_of_act hs
          exact ih.sameTasks rfl rfl rfl (fun _ => rfl) rfl
      | dagStart dagNo intVec floatVec =>
          obtain ⟨s, hs, rfl⟩ := Option.map_eq_some_iff.mp hact
          obtain ⟨hloop, rfl⟩ := dagStart_of_act hs
          exact ih.sameTasks rfl hloop rfl (fun _ => rfl) rfl
      | spawnAndWait printGraph => exact ih.spawnAndWait hreached.inv hok hact

/-- As long as the loops counted and `loop_names` are in step when graphs are run, every
executed task reads the name of its loop. -/
theorem loop_names_in_step (h : Reached InStep d) {t : TaskId} (ht : d.Executes t) :
    d.ReadsName t := by
  obtain ⟨hm, tasks, htasks, hmem⟩ := running_of_executes h.inv ht
  exact h.named.running hm tasks htasks t hmem

namespace Example

/-- A run whose acts are checked. -/
def run (check : DebugSession m → Act m → Bool) (d : DebugSession m) :
    List (Act m) → Option (DebugSession m)
  | [] => some d
  | a :: acts => if check d a then (d.act a).bind fun d => run check d acts else none

theorem isRun_run (check : DebugSession m → Act m → Bool) :
    IsRun (fun d a => if check d a then d.act a else none) (run check) :=
  .checked (fun _ => rfl) fun _ _ _ => rfl

theorem reached_run {ok : DebugSession m → Act m → Prop} {check : DebugSession m → Act m → Bool}
    (hcheck : ∀ d a, check d a = true → ok d a) {acts : List (Act m)} (h : Reached ok d)
    (hrun : run check d acts = some d') : Reached ok d' := by
  refine (isRun_run check).keeps ?_ hrun h
  intro a _ d d' hact hreached
  obtain ⟨hok, hact⟩ := Option.ite_none_right_eq_some.mp hact
  exact hreached.act (hcheck d a hok) hact

/-- Loops and names are in step, and no graph is resumed. -/
def inStep (d : DebugSession m) : Act m → Bool
  | .spawnAndWait _ =>
    d.session.kind != .resumed && d.graphCheck.loopId == d.loopNames.length
  | _ => true

theorem inStep_spec (d : DebugSession m) (a : Act m) (h : inStep d a = true) : d.InStep a := by
  cases a with
  | spawnAndWait printGraph =>
      simp only [inStep, Bool.and_eq_true, bne_iff_ne, beq_iff_eq] at h
      unfold InStep
      rw [if_neg h.1]
      exact fun _ => h.2
  | thread i hit => trivial
  | beginSplitTask loopInfo => trivial
  | registerTask spec => trivial
  | endSplitTask => trivial
  | dagStart dagNo intVec floatVec => trivial

/-- A loop of one task, which is run by the main thread alone, up to its `k`-th step. -/
def loopRun (loopInfo : String) (printGraph : Bool) (k : Nat) : List (Act 0) :=
  [.beginSplitTask (some loopInfo), .registerTask AceMesh.Example.reader, .endSplitTask,
    .spawnAndWait printGraph] ++ List.replicate k (.thread (Fin.last 0) true)

end Example

/-- Two loops, each run and printed. -/
theorem loop_names_in_step_printed : ∃ d : DebugSession 0, Reached InStep d ∧ d.Executes 2 ∧
    d.nameOf 2 = "b" ∧ d.ReadsName 2 := by
  have hrun : (Example.run Example.inStep start
      (Example.loopRun "a" true 13 ++ Example.loopRun "b" true 6)).map (fun d =>
        decide (d.session.runtime.pc 0 = .restore 2 ∧ d.nameOf 2 = "b")) = some true := by
    decide +kernel
  obtain ⟨d, hd, hat⟩ := Option.map_eq_some_iff.mp hrun
  obtain ⟨hpc, hname⟩ := of_decide_eq_true hat
  have hreached := Example.reached_run Example.inStep_spec Reached.start hd
  exact ⟨d, hreached, ⟨0, hpc⟩, hname, loop_names_in_step hreached ⟨0, hpc⟩⟩

/-- After a run that is not printed the count goes on, and the second loop's task reads behind
the end of `loop_names`. -/
theorem loop_names_out_of_range : ∃ d : DebugSession 0, Reached (fun _ _ => True) d ∧
    d.Executes 2 ∧ d.loopNames.length = 1 ∧ (d.ids 2).1 = 2 ∧ ¬d.ReadsName 2 := by
  have hrun : (Example.run (fun _ _ => true) start
      (Example.loopRun "a" false 13 ++ Example.loopRun "b" false 6)).map (fun d =>
        decide (d.session.runtime.pc 0 = .restore 2 ∧ d.loopNames.length = 1 ∧
          (d.ids 2).1 = 2)) = some true := by
    decide +kernel
  obtain ⟨d, hd, hat⟩ := Option.map_eq_some_iff.mp hrun
  obtain ⟨hpc, hlen, hid⟩ := of_decide_eq_true hat
  refine ⟨d, Example.reached_run (fun _ _ _ => trivial) Reached.start hd, ⟨0, hpc⟩, hlen, hid, ?_⟩
  intro hreads
  obtain ⟨_, hname⟩ := hreads
  obtain ⟨hlt, _⟩ := List.getElem?_eq_some_iff.mp hname
  omega

end DebugSession

end AceMesh
