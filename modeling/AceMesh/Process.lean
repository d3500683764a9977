import AceMesh.Stock

/-!
# One session after another

A process initialises the runtime, works with it as in `Session`, and shuts it down, any number
of times and with any numbers of threads. `close_all_threads` is not cleared again, the
schedulers are numbered on, and the task graph keeps the stored graphs that `free_tasks` has
deleted, with the vectors of all `dag_start`s. So the first session starts clean and no other
does (`sessions_clean_iff`).

`inits`, `freed` and `earlier` record what has happened; no step of the code reads them.
-/

open AceMesh.TaskDagGraph AceMesh.Runtime

namespace AceMesh

/-- `task_dag_graph::init`. -/
def TaskDagGraph.setThreadNum (g : TaskDagGraph) (threadNum : Nat) : TaskDagGraph :=
  { g with myAffinity := { g.myAffinity with threadNum := threadNum } }

/-- Where a process stands, with the task graph, which is the same in all sessions. -/
inductive Phase
  | down (g : TaskDagGraph)
  | up (m : Nat) (s : Session m)
  /-- In `close_worker_thread`, before the threads have been joined. -/
  | closing (m : Nat) (s : Session m)

structure Process where
  closeAllThreads : Bool
  index : Nat
  /-- The `id`s of `schedulers`. -/
  schedulers : List Nat
  phase : Phase
  inits : Nat
  /-- What `free_tasks` has deleted. -/
  freed : List TaskId
  /-- The calls of the sessions that are over, newest first. -/
  earlier : List Call

namespace Process

def start : Process where
  closeAllThreads := false
  index := 0
  schedulers := []
  phase := .down (TaskDagGraph.init 0)
  inits := 0
  freed := []
  earlier := []

/-- `aceMesh_runtime_init`, with `create_worker_thread`. The `EXTRA_THREAD` build has one
scheduler more, which is not in `schedulers`. -/
def init (extraThread : Bool) (m : Nat) (p : Process) : Option Process :=
  match p.phase with
  | .down g =>
    some { p with
      index := p.index + (m + 1) + (if extraThread then 1 else 0)
      schedulers := (List.range (m + 1)).map fun i => p.index + i
      phase := .up m
        { runtime := Runtime.initial (g.setThreadNum (m + 1)), looping := false, calls := [] }
      inits := p.inits + 1 }
  | _ => none

/-- A step of a thread. A worker that comes to the head of its loop returns if
`close_all_threads` is set. -/
def thread {m : Nat} (p : Process) (s : Session m) (i : Nat) (hit : Bool) :
    Option (Session m) :=
  if h : i < m + 1 then
    if i ≠ 0 ∧ p.closeAllThreads = true ∧ s.runtime.pc ⟨i, h⟩ = .next then none
    else s.act (.thread ⟨i, h⟩ hit)
  else none

/-- `aceMesh_runtime_shutdown`, up to the `pthread_join`s. -/
def shutdown (p : Process) (iterate : List TaskId → List TaskId)
    (dagInstanceMap : List (Int × DagInstance)) : Option Process :=
  match p.phase with
  | .up m s =>
    if s.runtime.main = .prog ∧ s.looping = false then
      (s.graph.freeTasks iterate dagInstanceMap).map fun r =>
        { p with
          closeAllThreads := true
          phase := .closing m (s.setGraph r.1)
          freed := r.2 ++ p.freed }
    else none
  | _ => none

/-- A worker leaves its loop at the head, with or without a task in its hand. -/
def atHead : Pc → Bool
  | .next | .hold _ => true
  | _ => false

/-- The rest of `close_worker_thread`. -/
def join (p : Process) : Option Process :=
  match p.phase with
  | .closing m s =>
    if (List.finRange (m + 1)).all fun i => i.val == 0 || atHead (s.runtime.pc i) then
      some { p with schedulers := [], phase := .down s.graph, earlier := s.calls ++ p.earlier }
    else none
  | _ => none

inductive Act
  | init (m : Nat)
  | thread (i : Nat) (hit : Bool)
  | call (c : ProgramCall)
  | shutdown (iterate : List TaskId → List TaskId) (dagInstanceMap : List (Int × DagInstance))
  | join

def act (extraThread : Bool) (p : Process) : Act → Option Process
  | .init m => p.init extraThread m
  | .thread i hit =>
    match p.phase with
    | .up m s => (p.thread s i hit).map fun s => { p with phase := .up m s }
    | .closing m s =>
      if i = 0 then none
      else (p.thread s i hit).map fun s => { p with phase := .closing m s }
    | .down _ => none
  | .call c =>
    match p.phase with
    | .up m s => (s.act (.call c)).map fun s => { p with phase := .up m s }
    | _ => none
  | .shutdown iterate dagInstanceMap => p.shutdown iterate dagInstanceMap
  | .join => p.join

def taskGraph (p : Process) : TaskDagGraph :=
  match p.phase with
  | .down g => g
  | .up _ s => s.graph
  | .closing _ s => s.graph

/-- The calls of all sessions, newest first. -/
def calls (p : Process) : List Call :=
  match p.phase with
  | .down _ => p.earlier
  | .up _ s => s.calls ++ p.earlier
  | .closing _ s => s.calls ++ p.earlier

/-- The entries and the order in which `shutdown` goes through them are those of the maps. -/
def Fits (p : Process) : Act → Prop
  | .shutdown iterate dagInstanceMap =>
    (∀ l, (iterate l).Perm l) ∧ (dagInstanceMap.map (·.1)).Nodup ∧
      ∀ q, q ∈ dagInstanceMap ↔ p.taskGraph.reuse.dagInstanceMap q.1 = some q.2
  | _ => True

/-- The states of processes. -/
inductive Reached (extraThread : Bool) : Process → Prop
  | start : Reached extraThread start
  | act {p p' : Process} {a : Act} :
      Reached extraThread p → p.Fits a → p.act extraThread a = some p' → Reached extraThread p'

/-- The acts of one run. -/
def run (extraThread : Bool) (p : Process) : List Act → Option Process
  | [] => some p
  | a :: acts => (p.act extraThread a).bind fun p => p.run extraThread acts

variable {extraThread : Bool} {p p' : Process} {m : Nat}

theorem isRun_run : IsRun (Process.act extraThread) (Process.run extraThread) :=
  ⟨fun _ => rfl, fun _ _ _ => rfl⟩

theorem Reached.run (h : Reached extraThread p) (acts : List Act)
    (hfits : ∀ a ∈ acts, ∀ q : Process, q.Fits a) (hrun : p.run extraThread acts = some p') :
    Reached extraThread p' := by
  refine isRun_run.keeps ?_ hrun h
  exact fun a ha p _ hact hreached => hreached.act (hfits a ha p) hact

/-! ## What an act does -/

/-- An initialisation, a step or a call within a session, or a part of a shutdown. -/
inductive Effect (extraThread : Bool) (p p' : Process) : Prop
  | init (m : Nat) (g : TaskDagGraph) (down : p.phase = .down g)
      (eq : p' = { p with
        index := p.index + (m + 1) + (if extraThread then 1 else 0)
        schedulers := (List.range (m + 1)).map fun i => p.index + i
        phase := .up m
          { runtime := Runtime.initial (g.setThreadNum (m + 1)), looping := false, calls := [] }
        inits := p.inits + 1 })
  | work (m : Nat) (s s' : Session m) (a : Session.Act m) (act : s.act a = some s')
      (phase : p.phase = .up m s ∧ p' = { p with phase := .up m s' } ∨
        p.phase = .closing m s ∧ p' = { p with phase := .closing m s' })
  | shutdown (m : Nat) (s : Session m) (g : TaskDagGraph) (freed : List TaskId)
      (up : p.phase = .up m s) (reuse : g.reuse = s.graph.reuse)
      (eq : p' = { p with
        closeAllThreads := true, phase := .closing m (s.setGraph g), freed := freed ++ p.freed })
  | join (m : Nat) (s : Session m) (closing : p.phase = .closing m s)
      (eq : p' = { p with
        schedulers := [], phase := .down s.graph, earlier := s.calls ++ p.earlier })

theorem freeInstance_reuse {iterate : List TaskId → List TaskId}
    {s s' : TaskDagGraph × List TaskId} {inst : DagInstance}
    (h : freeInstance iterate s inst = some s') : s'.1.reuse = s.1.reuse := by
  obtain ⟨r, -, rfl⟩ := Option.map_eq_some_iff.mp h
  have hdelete : ∀ (l : List TaskId) (u : TaskDagGraph × List TaskId),
      (l.foldl (fun s t => ({ s.1 with heap := s.1.heap.delete t }, s.2 ++ [t])) u).1.reuse =
        u.1.reuse := by
    intro l
    induction l with
    | nil => exact fun u => rfl
    | cons t l ih => exact fun u => ih _
  exact hdelete _ _

/-- `free_tasks` leaves the maps as they are. -/
theorem freeTasks_reuse {g g' : TaskDagGraph} {iterate : List TaskId → List TaskId}
    {l : List (Int × DagInstance)} {freed : List TaskId}
    (h : g.freeTasks iterate l = some (g', freed)) : g'.reuse = g.reuse := by
  have hall : ∀ (l : List (Int × DagInstance)) (s s' : TaskDagGraph × List TaskId),
      l.foldlM (fun s p => freeInstance iterate s p.2) s = some s' → s'.1.reuse = s.1.reuse := by
    intro l
    induction l with
    | nil =>
        intro s s' h
        cases h
        rfl
    | cons q l ih =>
        intro s s' h
        rw [List.foldlM_cons] at h
        obtain ⟨s₁, hfirst, hrest⟩ := Option.bind_eq_some_iff.mp h
        exact (ih s₁ s' hrest).trans (freeInstance_reuse hfirst)
  exact hall l (g, []) (g', freed) h

theorem thread_act {s s' : Session m} {i : Nat} {hit : Bool} (h : p.thread s i hit = some s') :
    ∃ a, s.act a = some s' := by
  unfold Process.thread at h
  split at h
  · split at h
    · cases h
    · exact ⟨_, h⟩
  · cases h

theorem act_effect {a : Act} (h : p.act extraThread a = some p') : Effect extraThread p p' := by
  cases a with
  | init m =>
      replace h : p.init extraThread m = some p' := h
      unfold Process.init at h
      split at h
      next g hdown =>
        cases h
        exact .init m g hdown rfl
      · cases h
  | thread i hit =>
      dsimp only [Process.act] at h
      split at h
      next m s hup =>
        obtain ⟨s', hs', rfl⟩ := Option.map_eq_some_iff.mp h
        obtain ⟨a, ha⟩ := thread_act hs'
        exact .work m s s' a ha (Or.inl ⟨hup, rfl⟩)
      next m s hclosing =>
        split at h
        · cases h
        · obtain ⟨s', hs', rfl⟩ := Option.map_eq_some_iff.mp h
          obtain ⟨a, ha⟩ := thread_act hs'
          exact .work m s s' a ha (Or.inr ⟨hclosing, rfl⟩)
      · cases h
  | call c =>
      dsimp only [Process.act] at h
      split at h
      next m s hup =>
        obtain ⟨s', hs', rfl⟩ := Option.map_eq_some_iff.mp h
        exact .work m s s' _ hs' (Or.inl ⟨hup, rfl⟩)
      · cases h
  | shutdown iterate dagInstanceMap =>
      replace h : p.shutdown iterate dagInstanceMap = some p' := h
      unfold Process.shutdown at h
      split at h
      next m s hup =>
        split at h
        · obtain ⟨⟨g, freed⟩, hfree, rfl⟩ := Option.map_eq_some_iff.mp h
          exact .shutdown m s g freed hup (freeTasks_reuse hfree) rfl
        · cases h
      · cases h
  | join =>
      replace h : p.join = some p' := h
      unfold Process.join at h
      split at h
      next m s hclosing =>
        split at h
        · cases h
          exact .join m s hclosing rfl
        · cases h
      · cases h

/-! ## The flag and the counter -/

/-- Before the first session all is as the program starts; between two sessions the flag is
set. -/
structure Begun (p : Process) : Prop where
  first : p.inits = 0 → p.closeAllThreads = false ∧ p.index = 0 ∧ p.freed = [] ∧
    ∃ g, p.phase = .down g
  between : p.inits ≠ 0 → ∀ g, p.phase = .down g → p.closeAllThreads = true
  closing : ∀ m s, p.phase = .closing m s → p.closeAllThreads = true

theorem Begun.start : Begun start where
  first := fun _ => ⟨rfl, rfl, rfl, _, rfl⟩
  between := fun h => absurd rfl h
  closing := fun _ _ h => nomatch h

theorem Begun.inits_ne_zero (h : Begun p) (hdown : ∀ g, p.phase ≠ .down g) : p.inits ≠ 0 := by
  intro hzero
  obtain ⟨-, -, -, g, hg⟩ := h.first hzero
  exact hdown g hg

theorem Begun.effect (h : Begun p) (heffect : Effect extraThread p p') : Begun p' := by
  cases heffect with
  | init m g hdown heq =>
      subst heq
      exact ⟨fun hzero => absurd hzero (Nat.succ_ne_zero _), (fun _ _ hphase => nomatch hphase),
        fun _ _ hphase => nomatch hphase⟩
  | work m s s' a _ hphase =>
      obtain ⟨hup, rfl⟩ | ⟨hclosing, rfl⟩ := hphase
      · have hne := h.inits_ne_zero fun g hg => by
          rw [hup] at hg
          cases hg
        exact ⟨fun hzero => absurd hzero hne, (fun _ _ hphase => nomatch hphase),
          fun _ _ hphase => nomatch hphase⟩
      · have hne := h.inits_ne_zero fun g hg => by
          rw [hclosing] at hg
          cases hg
        exact ⟨fun hzero => absurd hzero hne, (fun _ _ hphase => nomatch hphase),
          fun _ _ _ => h.closing m s hclosing⟩
  | shutdown m s g freed hup _ heq =>
      subst heq
      have hne := h.inits_ne_zero fun g hg => by
        rw [hup] at hg
        cases hg
      exact ⟨fun hzero => absurd hzero hne, fun _ _ _ => rfl, fun _ _ _ => rfl⟩
  | join m s hclosing heq =>
      subst heq
      have hne := h.inits_ne_zero fun g hg => by
        rw [hclosing] at hg
        cases hg
      exact ⟨fun hzero => absurd hzero hne, fun _ _ _ => h.closing m s hclosing,
        fun _ _ hphase => nomatch hphase⟩

theorem Reached.begun (h : Reached extraThread p) : Begun p := by
  induction h with
  | start => exact Begun.start
  | act _ _ hact ih => exact ih.effect (act_effect hact)

/-! ## The vectors -/

/-- The vectors of the first `dag_start` for a number. -/
def firstVectors (no : Int) : List Call → Option (List Int × List Double)
  | [] => none
  | .dagStart dagNo intVec floatVec _ :: calls =>
    (firstVectors no calls).or (if dagNo = no then some (intVec, floatVec) else none)
  | .task _ :: calls => firstVectors no calls
  | .spawnAndWait _ _ :: calls => firstVectors no calls

/-- The maps hold the vectors of the first `dag_start` of each number. -/
structure Recorded (no : Int) (u : DagReuse) (calls : List Call) : Prop where
  missing : firstVectors no calls = none →
    u.dagReuseCnt no = none ∧ u.dagIvecMap no = [] ∧ u.dagFvecMap no = []
  found : ∀ v, firstVectors no calls = some v →
    u.dagReuseCnt no ≠ none ∧ u.dagIvecMap no = v.1 ∧ u.dagFvecMap no = v.2

variable {no : Int}

theorem Recorded.congr {u u' : DagReuse} {calls calls' : List Call} (h : Recorded no u calls)
    (hcnt : u'.dagReuseCnt no = none ↔ u.dagReuseCnt no = none)
    (hivec : u'.dagIvecMap no = u.dagIvecMap no) (hfvec : u'.dagFvecMap no = u.dagFvecMap no)
    (hcalls : firstVectors no calls' = firstVectors no calls) : Recorded no u' calls' := by
  constructor
  · intro hnone
    obtain ⟨hcnt', hvectors⟩ := h.missing (hcalls ▸ hnone)
    rw [hivec, hfvec]
    exact ⟨hcnt.mpr hcnt', hvectors⟩
  · intro v hv
    obtain ⟨hcnt', hvectors⟩ := h.found v (hcalls ▸ hv)
    rw [hivec, hfvec]
    exact ⟨fun hnone => hcnt' (hcnt.mp hnone), hvectors⟩

theorem Recorded.dagStart {u u' : DagReuse} {calls : List Call} {dagNo : Int} {iv : List Int}
    {fv : List Double} {ret : Bool} (h : Recorded no u calls)
    (hann : Session.Announces u dagNo iv fv u' ret) :
    Recorded no u' (.dagStart dagNo iv fv ret :: calls) := by
  by_cases hno : dagNo = no
  · subst hno
    cases hfirst : firstVectors dagNo calls with
    | none =>
        obtain ⟨hcnt, hivec, hfvec⟩ := h.missing hfirst
        obtain ⟨hcnt', hivec', hfvec', -⟩ := hann.of_unseen hcnt
        rw [hivec, List.nil_append] at hivec'
        rw [hfvec, List.nil_append] at hfvec'
        have hnow : firstVectors dagNo (.dagStart dagNo iv fv ret :: calls) = some (iv, fv) := by
          rw [firstVectors, hfirst, if_pos rfl]
          rfl
        constructor
        · intro hnone
          rw [hnow] at hnone
          cases hnone
        · intro v hv
          rw [hnow] at hv
          cases hv
          rw [hcnt']
          exact ⟨Option.some_ne_none _, hivec', hfvec'⟩
    | some v =>
        obtain ⟨hcnt, -⟩ := h.found v hfirst
        obtain ⟨c, hc⟩ := Option.ne_none_iff_exists'.mp hcnt
        obtain ⟨⟨hivec, hfvec⟩, c', -, hcnt', -⟩ := hann.of_seen hc
        apply h.congr _ hivec hfvec
        · rw [firstVectors, hfirst]
          rfl
        · rw [hcnt', hc]
          exact iff_of_false (Option.some_ne_none _) (Option.some_ne_none _)
  · obtain ⟨hcnt, hivec, hfvec⟩ := hann.of_ne (Ne.symm hno)
    apply h.congr (by rw [hcnt]) hivec hfvec
    rw [firstVectors, if_neg hno, Option.or_none]

theorem Recorded.act {s s' : Session m} {a : Session.Act m} {earlier : List Call}
    (h : Recorded no s.graph.reuse (s.calls ++ earlier)) (hact : s.act a = some s') :
    Recorded no s'.graph.reuse (s'.calls ++ earlier) := by
  cases Session.act_effect hact with
  | quiet hreuse hcalls =>
      rw [hreuse, hcalls]
      exact h
  | task t hreuse hcalls =>
      rw [hreuse, hcalls]
      exact h.congr Iff.rfl rfl rfl rfl
  | dagStart dagNo iv fv heq =>
      subst heq
      exact h.dagStart (Session.dagStart_reuse_announces s dagNo iv fv)
  | spawnAndWait hcall =>
      have hs := Session.call_spawnAndWait hcall
      obtain ⟨-, -, hivec, hfvec⟩ := Session.spawnAndWait_flag hs
      obtain ⟨hcalls, hstored, hother⟩ := Session.spawnAndWait_reuse hs
      apply h.congr _ (congrFun hivec no) (congrFun hfvec no)
      · rw [hcalls]
        rfl
      · by_cases hkind : s.kind = .stored
        · obtain ⟨hcnt, -, hreuse⟩ := hstored hkind
          rw [hreuse]
          dsimp only
          by_cases hno : no = s.graph.reuse.currDagNo
          · rw [hno, hcnt, Function.update_self]
            exact iff_of_false (Option.some_ne_none _) (Option.some_ne_none _)
          · rw [Function.update_of_ne hno]
        · rw [hother hkind]

theorem Recorded.effect (h : Recorded no p.taskGraph.reuse p.calls)
    (heffect : Effect extraThread p p') : Recorded no p'.taskGraph.reuse p'.calls := by
  cases heffect with
  | init m g hdown heq =>
      subst heq
      unfold taskGraph calls at h
      rw [hdown] at h
      exact h
  | work m s s' a hact hphase =>
      unfold taskGraph calls at h
      obtain ⟨hup, rfl⟩ | ⟨hclosing, rfl⟩ := hphase
      · rw [hup] at h
        exact h.act hact
      · rw [hclosing] at h
        exact h.act hact
  | shutdown m s g freed hup hreuse heq =>
      subst heq
      unfold taskGraph calls at h
      rw [hup] at h
      show Recorded no g.reuse (s.calls ++ p.earlier)
      rw [hreuse]
      exact h
  | join m s hclosing heq =>
      subst heq
      unfold taskGraph calls at h
      rw [hclosing] at h
      exact h

theorem Reached.recorded (h : Reached extraThread p) (no : Int) :
    Recorded no p.taskGraph.reuse p.calls := by
  induction h with
  | start => exact ⟨fun _ => ⟨rfl, rfl, rfl⟩, fun v hv => by cases hv⟩
  | act _ _ hact ih => exact ih.effect (act_effect hact)

/-! ## Clean sessions -/

/-- The state after an initialisation with `m + 1` threads: the workers run, each scheduler has
the number of its place, and no stored graph has been deleted. -/
structure StartsClean (m : Nat) (p : Process) : Prop where
  running : p.closeAllThreads = false
  ids : ∀ i < m + 1, p.schedulers[i]? = some i
  alive : ∀ no inst, p.taskGraph.reuse.dagInstanceMap no = some inst →
    inst.endTask ∉ p.freed ∧ ∀ t ∈ inst.needSpawnTasks, t ∉ p.freed

/-- The vectors are those of the first `dag_start` for this number, in any session. -/
def Repeats (p : Process) (no : Int) (intVec : List Int) (floatVec : List Double) : Prop :=
  ∃ v, firstVectors no p.calls = some v ∧ v.1 = intVec ∧ SameFloats v.2 floatVec

theorem startsClean_iff (h : Begun p) (hinit : p.init extraThread m = some p') :
    StartsClean m p' ↔ p.inits = 0 := by
  unfold Process.init at hinit
  split at hinit
  next g hdown =>
    cases hinit
    constructor
    · intro hclean
      by_contra hne
      have hset := h.between hne g hdown
      have hopen : p.closeAllThreads = false := hclean.running
      rw [hset] at hopen
      cases hopen
    · intro hzero
      obtain ⟨hopen, hindex, hfreed, -⟩ := h.first hzero
      refine ⟨hopen, ?_, ?_⟩
      · intro i hi
        show ((List.range (m + 1)).map fun i => p.index + i)[i]? = some i
        rw [List.getElem?_map, List.getElem?_range hi, hindex, Option.map_some, Nat.zero_add]
      · intro no inst _
        show inst.endTask ∉ p.freed ∧ ∀ t ∈ inst.needSpawnTasks, t ∉ p.freed
        rw [hfreed]
        exact ⟨List.not_mem_nil, fun _ _ => List.not_mem_nil⟩
  · cases hinit

theorem dagStart_iff {s : Session m} (h : Reached extraThread p) (hup : p.phase = .up m s)
    {iv : List Int} {fv : List Double} :
    (s.graph.dagStart no iv fv).2 = true ↔ p.Repeats no iv fv := by
  have hrecorded := h.recorded no
  have hgraph : p.taskGraph = s.graph := by
    unfold taskGraph
    rw [hup]
  rw [hgraph] at hrecorded
  have hret := Session.dagStart_announces s.graph no iv fv
  unfold Repeats
  cases hfirst : firstVectors no p.calls with
  | none =>
      obtain ⟨hcnt, -⟩ := hrecorded.missing hfirst
      rw [(hret.of_unseen hcnt).2.2.2]
      exact iff_of_false Bool.false_ne_true fun hrepeats => by
        obtain ⟨v, hv, -⟩ := hrepeats
        cases hv
  | some v =>
      obtain ⟨hcnt, hivec, hfvec⟩ := hrecorded.found v hfirst
      have hsame : (s.graph.dagStart no iv fv).2 =
          sameVectors (s.graph.reuse.dagIvecMap no) iv (s.graph.reuse.dagFvecMap no) fv := by
        generalize (s.graph.dagStart no iv fv).2 = ret at hret
        generalize (s.graph.dagStart no iv fv).1.reuse = u at hret
        cases hret with
        | again _ _ hsame => exact hsame.symm
        | other _ _ hdiffer => exact hdiffer.symm
        | first hnone => exact absurd hnone hcnt
      rw [hsame, hivec, hfvec, sameVectors_iff]
      constructor
      · intro hv
        exact ⟨v, rfl, hv⟩
      · intro hrepeats
        obtain ⟨w, hw, hrest⟩ := hrepeats
        cases hw
        exact hrest

/-- A session starts clean exactly if it is the first of the process, and a `dag_start` for a
graph that this session has not stored returns `0` exactly if it does not repeat the vectors
of the first one for the number. -/
theorem sessions_clean_iff (h : Reached extraThread p) :
    (∀ m p', p.init extraThread m = some p' → (StartsClean m p' ↔ p.inits = 0)) ∧
    ∀ m (s : Session m), p.phase = .up m s → ∀ no iv fv, storedTasks no s.calls = none →
      ((s.graph.dagStart no iv fv).2 = false ↔ ¬p.Repeats no iv fv) := by
  constructor
  · intro m p' hinit
    exact startsClean_iff h.begun hinit
  · intro m s hup no iv fv _
    rw [← dagStart_iff h hup, Bool.not_eq_true]

/-- The first session, with two threads. -/
theorem sessions_clean_iff_first : ∃ p, start.init false 1 = some p ∧ StartsClean 1 p :=
  ⟨_, rfl, ((sessions_clean_iff Reached.start).1 1 _ rfl).mpr rfl⟩

namespace Example

/-- A session with one thread, which stores and runs a graph of one task. -/
def stores : List Act :=
  [.init 0, .call (.dagStart 1 [] []), .call (.build .beginSplitTask),
    .call (.build (.registerTask AceMesh.Example.reader)), .call (.build .endSplitTask),
    .call .spawnAndWait] ++ List.replicate 13 (.thread 0 true)

theorem stores_fits : ∀ a ∈ stores, ∀ q : Process, q.Fits a := by
  intro a ha q
  cases a with
  | shutdown iterate l => simp [stores] at ha
  | init m => trivial
  | thread i hit => trivial
  | call c => trivial
  | join => trivial

/-- The end of the session. -/
def ends : Act := .shutdown id [(1, ⟨1, [0]⟩)]

end Example

/-- In the second session the workers return at once, the scheduler at place `0` has the number
`1`, the stored graph has been deleted, and `dag_start` says that it can be used. -/
theorem second_session_not_clean : ∃ (p p' : Process) (s : Session 0), Reached false p ∧
    p.init false 0 = some p' ∧ p'.phase = .up 0 s ∧ p'.closeAllThreads = true ∧
    p'.schedulers = [1] ∧ p'.taskGraph.reuse.dagInstanceMap 1 = some ⟨1, [0]⟩ ∧ 1 ∈ p'.freed ∧
    storedTasks 1 s.calls = none ∧ (s.graph.dagStart 1 [] []).2 = true := by
  obtain ⟨p₁, p₂, p₃, p₄, s, h₁, hmap, h₂, h₃, h₄, hup, hclose, hids, hinst, hfreed, hcalls, hret⟩ :
      ∃ (p₁ p₂ p₃ p₄ : Process) (s : Session 0), start.run false Example.stores = some p₁ ∧
        p₁.taskGraph.reuse.dagInstanceMap = Function.update (fun _ => none) 1 (some ⟨1, [0]⟩) ∧
        p₁.act false Example.ends = some p₂ ∧ p₂.act false .join = some p₃ ∧
        p₃.init false 0 = some p₄ ∧ p₄.phase = .up 0 s ∧ p₄.closeAllThreads = true ∧
        p₄.schedulers = [1] ∧ p₄.taskGraph.reuse.dagInstanceMap 1 = some ⟨1, [0]⟩ ∧
        1 ∈ p₄.freed ∧ storedTasks 1 s.calls = none ∧ (s.graph.dagStart 1 [] []).2 = true :=
    ⟨_, _, _, _, _, rfl, rfl, rfl, rfl, rfl, rfl, rfl, rfl, rfl, by decide, rfl, rfl⟩
  have hreached : Reached false p₁ := Reached.start.run _ Example.stores_fits h₁
  have hfits : p₁.Fits Example.ends := by
    refine ⟨fun _ => .rfl, by decide, fun q => ?_⟩
    rw [hmap]
    exact Session.Example.mem_single
  have hreached₃ : Reached false p₃ := (hreached.act hfits h₂).act (a := .join) trivial h₃
  exact ⟨p₃, p₄, s, hreached₃, h₄, hup, hclose, hids, hinst, hfreed, hcalls, hret⟩

end Process

end AceMesh
