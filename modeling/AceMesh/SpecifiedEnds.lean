import AceMesh.Closing

/-!
# End tasks named by the program

The `SPECIFY_END_TASKS` build: registering a task neither adds it to `end_tasks` nor takes
the sources of its edges out. Instead the program marks the task it has just generated with
`acemesh_specify_end_tasks`, and `end_construct_dag` hangs the end task on the marked ones.

Everything but `end_tasks` is as in the default build (`registerTask_eq`), so the edges and
counters are those of `Book`. What the default build does not need to ask is whether a
marked task still has its vertical slot free when the graph is closed.
-/

namespace AceMesh

open TaskDagGraph Relation

namespace SpecifyEndTasks

/-! ## The build -/

/-- The lines of `build_releationship` that make an edge, without `del_end_task`. -/
def addEdge (dest : TaskId) (isNeighbor : Bool) (g : TaskDagGraph) (src : TaskSignificance) :
    TaskDagGraph :=
  if !isNeighbor && !src.significance then
    { g with heap := g.heap.setVerticalTask src.t dest }
  else
    { g with heap := g.heap.addSuccessor src.t dest }

def buildReleationship (g : TaskDagGraph) (dest : TaskId) (type : InOut) (src : RwTask)
    (isNeighbor : Bool) : TaskDagGraph × Nat :=
  if src.rTasks = [] then
    match src.wTask with
    | some tmp => if type ≠ .INOUT_NONE then (addEdge dest isNeighbor g tmp, 1) else (g, 0)
    | none => (g, 0)
  else if type = .IN then
    match src.wTask with
    | some tmp => (addEdge dest isNeighbor g tmp, 1)
    | none => (g, 0)
  else
    src.rTasks.foldl (fun (s : TaskDagGraph × Nat) r =>
      if type ≠ .INOUT_NONE then (addEdge dest isNeighbor s.1 r, s.2 + 1) else s) (g, 0)

def registerAccess (t : TaskId) (isNeighbor : Bool) (type : InOut) (s : TaskDagGraph × Nat)
    (trueAddr : Addr) : TaskDagGraph × Nat :=
  let g := s.1.addTuplesToVirtualTask t trueAddr type isNeighbor
  match g.addrTask trueAddr with
  | some src =>
    let r := buildReleationship g t type src isNeighbor
    (r.1, s.2 + r.2)
  | none => (g, s.2)

def registerTuple (t : TaskId) (getNeighbor : Nat → Addr → List Addr) (s : TaskDagGraph × Nat)
    (itr : AddrTuple) : TaskDagGraph × Nat :=
  let s := if itr.addr ≠ 0 then
      registerAccess t false itr.type s (getTrueAddr itr.addr itr.areaType)
    else s
  if itr.neighbor = NEIGHBOR_NONE then s
  else
    ((getNeighbor itr.neighbor itr.addr).map fun a => getTrueAddr a itr.areaType).foldl
      (registerAccess t true itr.neighborType) s

/-- `register_task`, without `add_end_task`. -/
def registerTask (g : TaskDagGraph) (t : TaskId) (getNeighbor : Nat → Addr → List Addr)
    (addrs : List AddrTuple) : TaskDagGraph :=
  let a := g.myAffinity.getAffinityId
  let g := { g with heap := g.heap.setAffinityId t a.1, myAffinity := a.2 }
  let s := addrs.foldl (registerTuple t getNeighbor) (g, 0)
  if s.2 = 0 then { s.1 with needSpawnTasks := s.1.needSpawnTasks ++ [t] } else s.1

def taskGenerator (g : TaskDagGraph) (spec : TaskSpec) : TaskDagGraph :=
  registerTask (g.alloc (Task.newAceMesh spec.junk)) g.fresh spec.getNeighbor spec.addrs

def acemeshAddEndTask (g : TaskDagGraph) (t : TaskId) : TaskDagGraph :=
  { g with endTasks := g.endTasks.insert t }

/-- The graph and `cur_task`, the task the generator has made last. -/
structure Program where
  graph : TaskDagGraph
  curTask : Option TaskId

/-- The calls that build a graph, and the one that marks the current task. -/
inductive Call
  | build (c : BuildCall)
  | specifyEndTasks

/-- A mark before the first task would enter `NULL`, which `end_construct_dag` dereferences:
it is left out. -/
def Program.call (p : Program) : Call → Option Program
  | .build (.registerTask spec) => some ⟨taskGenerator p.graph spec, some p.graph.fresh⟩
  | .build .beginSplitTask => some { p with graph := p.graph.beginSplitTask }
  | .build (.beginSplitTaskNamed n) => some { p with graph := p.graph.beginSplitTaskNamed n }
  | .build .endSplitTask => some { p with graph := p.graph.endSplitTask }
  | .specifyEndTasks => p.curTask.map fun t => { p with graph := acemeshAddEndTask p.graph t }

def Program.run (p : Program) : List Call → Option Program
  | [] => some p
  | c :: calls => (p.call c).bind fun p => p.run calls

/-! ## The default build but for `end_tasks` -/

section Simulation

/-- Replace the end tasks, in the pair that `register_task` carries. -/
def withEnds (ends : List TaskId) (s : TaskDagGraph × Nat) : TaskDagGraph × Nat :=
  ({ s.1 with endTasks := ends }, s.2)

variable (ends : List TaskId)

theorem addEdge_eq (dest : TaskId) (nb : Bool) (g : TaskDagGraph) (src : TaskSignificance)
    (n : Nat) :
    (addEdge dest nb { g with endTasks := ends } src, n) =
      withEnds ends (TaskDagGraph.addEdge dest nb g src, n) := by
  unfold addEdge TaskDagGraph.addEdge
  split <;> rfl

theorem buildReleationship_eq (g : TaskDagGraph) (dest : TaskId) (type : InOut) (src : RwTask)
    (nb : Bool) :
    buildReleationship { g with endTasks := ends } dest type src nb =
      withEnds ends (g.buildReleationship dest type src nb) := by
  unfold buildReleationship TaskDagGraph.buildReleationship
  by_cases hr : src.rTasks = []
  · rw [if_pos hr, if_pos hr]
    cases src.wTask with
    | none => rfl
    | some tmp =>
        by_cases ht : type ≠ .INOUT_NONE
        · simp only [if_pos ht, addEdge_eq]
        · simp only [if_neg ht]
          rfl
  · rw [if_neg hr, if_neg hr]
    by_cases hin : type = .IN
    · rw [if_pos hin, if_pos hin]
      cases src.wTask with
      | none => rfl
      | some tmp => simp only [addEdge_eq]
    · rw [if_neg hin, if_neg hin]
      change src.rTasks.foldl _ (withEnds ends (g, 0)) = _
      refine List.foldl_hom (withEnds ends) fun s r => ?_
      by_cases ht : type ≠ .INOUT_NONE
      · simp only [if_pos ht]
        exact addEdge_eq ends dest nb s.1 r (s.2 + 1)
      · simp only [if_neg ht]

theorem registerAccess_eq (t : TaskId) (nb : Bool) (type : InOut) (s : TaskDagGraph × Nat)
    (a : Addr) :
    registerAccess t nb type (withEnds ends s) a =
      withEnds ends (TaskDagGraph.registerAccess t nb type s a) := by
  unfold registerAccess TaskDagGraph.registerAccess
  have hrecord : (withEnds ends s).1.addTuplesToVirtualTask t a type nb =
      { s.1.addTuplesToVirtualTask t a type nb with endTasks := ends } := rfl
  have htable : (s.1.addTuplesToVirtualTask t a type nb).addrTask a = s.1.addrTask a := rfl
  simp only [hrecord, htable]
  cases s.1.addrTask a with
  | none => rfl
  | some src => simp only [buildReleationship_eq, withEnds]

theorem registerTuple_eq (t : TaskId) (getNeighbor : Nat → Addr → List Addr)
    (s : TaskDagGraph × Nat) (itr : AddrTuple) :
    registerTuple t getNeighbor (withEnds ends s) itr =
      withEnds ends (TaskDagGraph.registerTuple t getNeighbor s itr) := by
  unfold registerTuple TaskDagGraph.registerTuple
  have hown : (if itr.addr ≠ 0 then
        registerAccess t false itr.type (withEnds ends s) (getTrueAddr itr.addr itr.areaType)
      else withEnds ends s) =
      withEnds ends (if itr.addr ≠ 0 then
        TaskDagGraph.registerAccess t false itr.type s (getTrueAddr itr.addr itr.areaType)
      else s) := by
    split
    · exact registerAccess_eq ends t false itr.type s _
    · rfl
  simp only [hown]
  split
  · rfl
  · exact List.foldl_hom (withEnds ends) fun s a =>
      registerAccess_eq ends t true itr.neighborType s a

theorem taskGenerator_eq (g : TaskDagGraph) (spec : TaskSpec) :
    taskGenerator { g with endTasks := ends } spec =
      { g.taskGenerator spec with endTasks := ends } := by
  -- the last line of `register_task`, after the loop over the tuples
  let last : TaskDagGraph × Nat → TaskDagGraph := fun s =>
    if s.2 = 0 then { s.1 with needSpawnTasks := s.1.needSpawnTasks ++ [g.fresh] } else s.1
  have hlast : ∀ s, last (withEnds ends s) = { last s with endTasks := ends } := by
    intro s
    simp only [last, withEnds]
    split <;> rfl
  let start := (g.alloc (Task.newAceMesh spec.junk)).registerStart g.fresh
  have hfold : spec.addrs.foldl (registerTuple g.fresh spec.getNeighbor)
      (withEnds ends (start, 0)) =
      withEnds ends (spec.addrs.foldl (TaskDagGraph.registerTuple g.fresh spec.getNeighbor)
        (start, 0)) :=
    List.foldl_hom (withEnds ends) fun s itr =>
      registerTuple_eq ends g.fresh spec.getNeighbor s itr
  exact (congrArg last hfold).trans (hlast _)

theorem endSplitTask_withEnds (g : TaskDagGraph) :
    ({ g with endTasks := ends } : TaskDagGraph).endSplitTask =
      { g.endSplitTask with endTasks := ends } := by
  refine List.foldl_hom (fun g : TaskDagGraph => { g with endTasks := ends }) fun g v => ?_
  unfold enterTuple
  split
  · rfl
  · split <;> rfl

end Simulation

/-! ## Edges and counters before the graph is closed -/

/-- With other end tasks the graph is one of the default build, and the marked tasks are
tasks of the graph. -/
structure Build (lo : TaskId) (p : Program) : Prop where
  book : ∃ ends, Book lo { p.graph with endTasks := ends }
  marked : ∀ t ∈ p.graph.endTasks, lo ≤ t ∧ t < p.graph.fresh
  marked_nodup : p.graph.endTasks.Nodup
  curTask : ∀ t, p.curTask = some t → lo ≤ t ∧ t < p.graph.fresh

theorem Build.blank {g : TaskDagGraph} (hg : Blank g) : Build g.fresh ⟨g, none⟩ where
  book := ⟨g.endTasks, hg.book⟩
  marked := by simp [hg.endTasks]
  marked_nodup := by simp [hg.endTasks]
  curTask := by simp

/-- From one call to the next the edges stay. -/
def Extends (lo : TaskId) (p p' : Program) : Prop :=
  p.graph.fresh ≤ p'.graph.fresh ∧ ∀ u, lo ≤ u → u < p.graph.fresh →
    ∀ t, HeapEdge p.graph.heap u t → HeapEdge p'.graph.heap u t

theorem Build.registerTask {lo : TaskId} {p : Program} (h : Build lo p) (spec : TaskSpec) :
    Build lo ⟨taskGenerator p.graph spec, some p.graph.fresh⟩ ∧
      Extends lo p ⟨taskGenerator p.graph spec, some p.graph.fresh⟩ := by
  obtain ⟨ends, hb⟩ := h.book
  have heq : taskGenerator p.graph spec = _ :=
    taskGenerator_eq p.graph.endTasks { p.graph with endTasks := ends } spec
  have hfresh : (taskGenerator p.graph spec).fresh = p.graph.fresh + 1 := by
    rw [heq]
    exact taskGenerator_fresh _ spec
  have hends : (taskGenerator p.graph spec).endTasks = p.graph.endTasks := by rw [heq]
  constructor
  · constructor
    case book =>
      refine ⟨(TaskDagGraph.taskGenerator { p.graph with endTasks := ends } spec).endTasks, ?_⟩
      rw [heq]
      exact hb.taskGenerator spec
    case marked =>
      intro t ht
      rw [hends] at ht
      have hmarked := h.marked t ht
      rw [hfresh]
      lia
    case marked_nodup =>
      rw [hends]
      exact h.marked_nodup
    case curTask =>
      intro t ht
      cases ht
      have hlo := hb.lo_le
      rw [hfresh]
      exact ⟨hlo, Nat.lt_succ_self _⟩
  · constructor
    · rw [hfresh]
      exact Nat.le_succ _
    · intro u _ hu t ht
      have hne : u ≠ p.graph.fresh := Nat.ne_of_lt hu
      unfold HeapEdge
      rw [heq]
      apply (mem_outs_taskGenerator { p.graph with endTasks := ends } spec hne).mpr
      exact Or.inl ht

theorem Build.endSplitTask {lo : TaskId} {p : Program} (h : Build lo p) :
    Build lo { p with graph := p.graph.endSplitTask } ∧
      Extends lo p { p with graph := p.graph.endSplitTask } := by
  obtain ⟨ends, hb⟩ := h.book
  have hsame := endSplitTask_eq p.graph
  have hfresh := congrArg TaskDagGraph.fresh hsame
  have hheap := congrArg TaskDagGraph.heap hsame
  have hends := congrArg TaskDagGraph.endTasks hsame
  refine ⟨⟨⟨ends, ?_⟩, ?_, ?_, ?_⟩, hfresh.ge, ?_⟩
  · rw [← endSplitTask_withEnds]
    exact hb.endSplitTask
  · intro t ht
    rw [hends] at ht
    rw [hfresh]
    exact h.marked t ht
  · rw [hends]
    exact h.marked_nodup
  · intro t ht
    rw [hfresh]
    exact h.curTask t ht
  · intro u _ _ t ht
    unfold HeapEdge
    rw [hheap]
    exact ht

theorem Build.call {lo : TaskId} {p p' : Program} (h : Build lo p) {c : Call}
    (hc : p.call c = some p') : Build lo p' ∧ Extends lo p p' := by
  cases c with
  | build c =>
      cases c with
      | registerTask spec =>
          simp only [Program.call, Option.some.injEq] at hc
          subst hc
          exact h.registerTask spec
      | beginSplitTask =>
          simp only [Program.call, Option.some.injEq] at hc
          subst hc
          obtain ⟨ends, hb⟩ := h.book
          exact ⟨⟨⟨ends, hb.beginSplitTask⟩, h.marked, h.marked_nodup, h.curTask⟩, le_refl _,
            fun _ _ _ _ ht => ht⟩
      | beginSplitTaskNamed n =>
          simp only [Program.call, Option.some.injEq] at hc
          subst hc
          obtain ⟨ends, hb⟩ := h.book
          exact ⟨⟨⟨ends, hb.beginSplitTaskNamed n⟩, h.marked, h.marked_nodup, h.curTask⟩,
            le_refl _, fun _ _ _ _ ht => ht⟩
      | endSplitTask =>
          simp only [Program.call, Option.some.injEq] at hc
          subst hc
          exact h.endSplitTask
  | specifyEndTasks =>
      obtain ⟨t, ht, rfl⟩ := Option.map_eq_some_iff.mp hc
      refine ⟨⟨h.book, ?_, ?_, h.curTask⟩, le_refl _, fun _ _ _ _ hu => hu⟩
      · intro u hu
        rcases List.mem_insert_iff.mp hu with rfl | hu
        · exact h.curTask u ht
        · exact h.marked u hu
      · exact h.marked_nodup.insert

theorem Extends.trans {lo : TaskId} {p₁ p₂ p₃ : Program} (h : Extends lo p₁ p₂)
    (h' : Extends lo p₂ p₃) : Extends lo p₁ p₃ :=
  ⟨h.1.trans h'.1, fun u hlo hu t ht =>
    h'.2 u hlo (Nat.lt_of_lt_of_le hu h.1) t (h.2 u hlo hu t ht)⟩

theorem Program.run_append (p : Program) (before after : List Call) :
    p.run (before ++ after) = (p.run before).bind fun p => p.run after := by
  induction before generalizing p with
  | nil => rfl
  | cons c before ih =>
      change ((p.call c).bind fun p => p.run (before ++ after)) =
        ((p.call c).bind fun p => p.run before).bind fun p => p.run after
      rw [Option.bind_assoc]
      exact congrArg _ (funext fun p => ih p)

theorem Build.run {lo : TaskId} {p p' : Program} (h : Build lo p) {calls : List Call}
    (hrun : p.run calls = some p') : Build lo p' ∧ Extends lo p p' := by
  induction calls generalizing p with
  | nil =>
      cases hrun
      exact ⟨h, le_refl _, fun _ _ _ _ ht => ht⟩
  | cons c calls ih =>
      obtain ⟨p₁, hc, hrest⟩ := Option.bind_eq_some_iff.mp hrun
      obtain ⟨h₁, hext⟩ := h.call hc
      obtain ⟨h', hext'⟩ := ih h₁ hrest
      exact ⟨h', hext.trans hext'⟩

/-! ## Closing the graph -/

/-- Every recorded edge is there, and the counters count the edges, also that of the end
task. -/
structure Kept (lo : TaskId) (g g' : TaskDagGraph) : Prop where
  edges : ∀ u ∈ Finset.Ico lo g.fresh, ∀ t, HeapEdge g.heap u t → HeapEdge g'.heap u t
  counts : ∀ t ∈ Finset.Ico lo (g.fresh + 1), (g'.heap t).refCount =
    ({u ∈ Finset.Ico lo g.fresh |
      t ∈ (g'.heap u).successorTasks ∨ (g'.heap u).verticalTask = some t}).card

section Kept

variable {lo : TaskId} {p : Program} (h : Build lo p)
include h

theorem Build.endConstructDag_heap (u : TaskId) :
    p.graph.endConstructDag.heap u =
      if u ∈ p.graph.endTasks then { p.graph.heap u with verticalTask := some p.graph.fresh }
      else if u = p.graph.fresh then
        { Task.newEmpty with refCount := p.graph.endTasks.length }
      else p.graph.heap u :=
  endConstructDag_apply h.marked_nodup (fun hm => Nat.lt_irrefl _ (h.marked _ hm).2) u

/-- A marked task whose vertical slot is free gets one more edge. -/
theorem Build.mem_outs_closed (hfree : ∀ t ∈ p.graph.endTasks, (p.graph.heap t).verticalTask = none)
    {u : TaskId} (hu : u < p.graph.fresh) (t : TaskId) :
    t ∈ (p.graph.endConstructDag.heap u).outs ↔
      t ∈ (p.graph.heap u).outs ∨ (t = p.graph.fresh ∧ u ∈ p.graph.endTasks) := by
  rw [h.endConstructDag_heap]
  by_cases hm : u ∈ p.graph.endTasks
  · rw [if_pos hm, Task.mem_outs, Task.mem_outs, hfree u hm]
    simp only [Option.some.injEq, reduceCtorEq, or_false, hm, and_true, eq_comm]
  · rw [if_neg hm, if_neg (Nat.ne_of_lt hu)]
    simp only [hm, and_false, or_false]

/-- Closing keeps every edge and counter if and only if no marked task has a vertical task
yet. -/
theorem Build.kept_iff :
    Kept lo p.graph p.graph.endConstructDag ↔
      ∀ t ∈ p.graph.endTasks, (p.graph.heap t).verticalTask = none := by
  obtain ⟨ends, hb⟩ := h.book
  constructor
  · intro hkept t ht
    obtain ⟨hlo, hhi⟩ := h.marked t ht
    by_contra hsome
    obtain ⟨v, hv⟩ := Option.ne_none_iff_exists'.mp hsome
    have hedge : v ∈ (p.graph.heap t).outs := Task.mem_outs.mpr (Or.inr hv)
    have hlost := hkept.edges t (Finset.mem_Ico.mpr ⟨hlo, hhi⟩) v hedge
    rw [HeapEdge, h.endConstructDag_heap, if_pos ht, Task.mem_outs] at hlost
    rcases hlost with hsucc | hend
    · -- an edge is listed once, so it was not a successor as well
      have hnd := hb.edges.nodup t hlo hhi
      rw [Task.outs, hv, Option.toList_some, List.nodup_append] at hnd
      exact hnd.2.2 v hsucc v (List.mem_singleton_self v) rfl
    · have hfwd : v < p.graph.fresh := (hb.edges.forward t hlo hhi v hedge).2
      have heq : p.graph.fresh = v := Option.some.inj hend
      lia
  · intro hfree
    have hmem := fun u (hu : u ∈ Finset.Ico lo p.graph.fresh) =>
      h.mem_outs_closed hfree (Finset.mem_Ico.mp hu).2
    constructor
    · intro u hu t ht
      exact (hmem u hu t).mpr (Or.inl ht)
    · intro t ht
      obtain ⟨hlo, hhi⟩ := Finset.mem_Ico.mp ht
      simp only [← Task.mem_outs]
      by_cases hnew : t = p.graph.fresh
      · subst hnew
        have hnot : p.graph.fresh ∉ p.graph.endTasks := fun hm =>
          Nat.lt_irrefl _ (h.marked _ hm).2
        rw [h.endConstructDag_heap, if_neg hnot, if_pos rfl]
        change ((p.graph.endTasks.length : Nat) : Int) = _
        rw [← List.toFinset_card_of_nodup h.marked_nodup]
        congr 2
        ext u
        rw [List.mem_toFinset, Finset.mem_filter, Finset.mem_Ico]
        constructor
        · intro hu
          have hrange := h.marked u hu
          exact ⟨hrange, (hmem u (Finset.mem_Ico.mpr hrange) _).mpr (Or.inr ⟨rfl, hu⟩)⟩
        · intro hu
          rcases (hmem u (Finset.mem_Ico.mpr hu.1) _).mp hu.2 with hout | hout
          · have hfwd : p.graph.fresh < p.graph.fresh :=
              (hb.edges.forward u hu.1.1 hu.1.2 _ hout).2
            exact absurd hfwd (Nat.lt_irrefl _)
          · exact hout.2
      · have hlt : t < p.graph.fresh := by lia
        have hcount : (p.graph.heap t).refCount =
            (predecessors lo p.graph.fresh p.graph.heap t).card := hb.edges.count t hlo hlt
        have hsame : (p.graph.endConstructDag.heap t).refCount =
            (p.graph.heap t).refCount := by
          rw [h.endConstructDag_heap, if_neg hnew]
          split <;> rfl
        rw [hsame, hcount, predecessors]
        congr 2
        refine Finset.filter_congr fun u hu => ?_
        rw [hmem u hu]
        simp only [hnew, false_and, or_false]

end Kept

/-- In every sequence of calls that builds a graph and marks tasks in the
`SPECIFY_END_TASKS` build, no recorded edge is lost before the graph is closed; closing it
keeps the edges and counters if and only if no marked task has a vertical task by then. -/
theorem specified_ends_exact {g₀ : TaskDagGraph} (hg₀ : Blank g₀) {calls : List Call}
    {p : Program} (hrun : (⟨g₀, none⟩ : Program).run calls = some p) :
    (∀ before after p', calls = before ++ after →
      (⟨g₀, none⟩ : Program).run before = some p' →
      ∀ u ∈ Finset.Ico g₀.fresh p'.graph.fresh, ∀ t,
        HeapEdge p'.graph.heap u t → HeapEdge p.graph.heap u t) ∧
    (Kept g₀.fresh p.graph p.graph.endConstructDag ↔
      ∀ t ∈ p.graph.endTasks, (p.graph.heap t).verticalTask = none) := by
  have hstart := Build.blank hg₀
  refine ⟨?_, (hstart.run hrun).1.kept_iff⟩
  intro before after p' hcalls hbefore u hu t ht
  obtain ⟨hlo, hhi⟩ := Finset.mem_Ico.mp hu
  rw [hcalls, Program.run_append, hbefore] at hrun
  exact ((hstart.run hbefore).1.run hrun).2.2 u hlo hhi t ht

/-! ## A marked task that gets a successor -/

namespace Example

/-- A task writes an address; a later loop reads the address. The first task is marked if
`early`, the second one always. -/
def program (early : Bool) : List Call :=
  let a : AddrTuple := ⟨8, .NORMAL, .OUT, NEIGHBOR_NONE, .INOUT_NONE⟩
  [.build .beginSplitTask, .build (.registerTask ⟨⟨false, 0⟩, fun _ _ => [], [a]⟩)] ++
    (if early then [.specifyEndTasks] else []) ++
    [.build .endSplitTask, .build .beginSplitTask,
      .build (.registerTask ⟨⟨false, 0⟩, fun _ _ => [], [{ a with type := .IN }]⟩),
      .specifyEndTasks, .build .endSplitTask]

end Example

/-- Only the last task is marked: the graph is kept. -/
theorem specified_ends_exact_last : ∃ p : Program,
    (⟨TaskDagGraph.init 4, none⟩ : Program).run (Example.program false) = some p ∧
    Kept 0 p.graph p.graph.endConstructDag := by
  obtain ⟨p, hp⟩ : ∃ p, (⟨TaskDagGraph.init 4, none⟩ : Program).run (Example.program false) =
      some p := ⟨_, rfl⟩
  refine ⟨p, hp, (specified_ends_exact (blank_init 4) hp).2.mpr ?_⟩
  cases hp
  decide

/-- The first task is marked too: the edge to the reader is gone, and the reader keeps a
counter that nobody decrements. -/
theorem marked_source_loses_edge : ∃ p : Program,
    (⟨TaskDagGraph.init 4, none⟩ : Program).run (Example.program true) = some p ∧
    HeapEdge p.graph.heap 0 1 ∧
    ¬ HeapEdge p.graph.endConstructDag.heap 0 1 ∧
    (p.graph.endConstructDag.heap 1).refCount = 1 ∧
    (∀ u ∈ Finset.Ico 0 p.graph.fresh, ¬ HeapEdge p.graph.endConstructDag.heap u 1) ∧
    ¬ Kept 0 p.graph p.graph.endConstructDag := by
  obtain ⟨p, hp⟩ : ∃ p, (⟨TaskDagGraph.init 4, none⟩ : Program).run (Example.program true) =
      some p := ⟨_, rfl⟩
  have hedge : HeapEdge p.graph.heap 0 1 ∧
      (∀ u ∈ Finset.Ico 0 p.graph.fresh,
        ¬ HeapEdge p.graph.endConstructDag.heap u 1) ∧
      (p.graph.endConstructDag.heap 1).refCount = 1 ∧
      0 ∈ Finset.Ico 0 p.graph.fresh := by
    cases hp
    simp only [HeapEdge]
    decide
  obtain ⟨hbefore, hafter, hcount, hmem⟩ := hedge
  exact ⟨p, hp, hbefore, hafter 0 hmem, hcount, hafter,
    fun hkept => hafter 0 hmem (hkept.edges 0 hmem 1 hbefore)⟩

end SpecifyEndTasks

end AceMesh
