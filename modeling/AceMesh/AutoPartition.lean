import AceMesh.DisjoinSet
import AceMesh.Lib.Components
import AceMesh.Lib.Fold
import AceMesh.PartEnds

/-!
# Parts found by the graph

The `AUTO_PARTITION` build: a task without predecessors opens a set of its own in
`my_disjoin_set`, a task with predecessors takes the group of the first one and unites it
with the groups of the others, edge by edge while it is registered. What a task keeps in
`group_id` is the representative of that moment; `find_set` leads from it to the one of now.
`spawn_and_wait_with_separation` then runs the sets one after the other.

`none` is an index outside of the arrays of `my_disjoin_set`.
-/

namespace AceMesh

open TaskDagGraph Relation

variable {m : Nat}

namespace AutoPartition

/-! ## The build -/

/-- The graph with the `group_id` of the tasks, `my_disjoin_set`, `sep_id` and `sep_task`. -/
structure Partition where
  graph : TaskDagGraph
  groupId : TaskId → Int
  myDisjoinSet : DisjoinSet
  sepId : Nat
  sepTask : Nat → TaskId

def unionSet (src dest : TaskId) (p : Partition) : Option Partition :=
  if p.groupId dest < 0 then
    some { p with groupId := Function.update p.groupId dest (p.groupId src) }
  else do
    let x ← (p.groupId src).toNat?
    let y ← (p.groupId dest).toNat?
    let (set, id) ← p.myDisjoinSet.unionSet x y
    return { p with
      myDisjoinSet := set
      groupId := Function.update p.groupId dest (id : Int) }

/-- The lines of `build_releationship` that make an edge, with `union_set` at their end. -/
def addEdge (dest : TaskId) (isNeighbor : Bool) (p : Partition) (src : TaskSignificance) :
    Option Partition :=
  unionSet src.t dest { p with graph := TaskDagGraph.addEdge dest isNeighbor p.graph src }

def buildReleationship (p : Partition) (dest : TaskId) (type : InOut) (src : RwTask)
    (isNeighbor : Bool) : Option (Partition × Nat) :=
  if src.rTasks = [] then
    match src.wTask with
    | some tmp =>
      if type ≠ .INOUT_NONE then (addEdge dest isNeighbor p tmp).map fun p => (p, 1)
      else some (p, 0)
    | none => some (p, 0)
  else if type = .IN then
    match src.wTask with
    | some tmp => (addEdge dest isNeighbor p tmp).map fun p => (p, 1)
    | none => some (p, 0)
  else
    src.rTasks.foldlM (fun (s : Partition × Nat) r =>
      if type ≠ .INOUT_NONE then (addEdge dest isNeighbor s.1 r).map fun p => (p, s.2 + 1)
      else some s) (p, 0)

def registerAccess (t : TaskId) (isNeighbor : Bool) (type : InOut) (s : Partition × Nat)
    (trueAddr : Addr) : Option (Partition × Nat) :=
  let p := { s.1 with graph := s.1.graph.addTuplesToVirtualTask t trueAddr type isNeighbor }
  match p.graph.addrTask trueAddr with
  | some src => (buildReleationship p t type src isNeighbor).map fun r => (r.1, s.2 + r.2)
  | none => some (p, s.2)

def registerTuple (t : TaskId) (getNeighbor : Nat → Addr → List Addr) (s : Partition × Nat)
    (itr : AddrTuple) : Option (Partition × Nat) :=
  (if itr.addr ≠ 0 then registerAccess t false itr.type s (getTrueAddr itr.addr itr.areaType)
  else some s).bind fun s =>
    if itr.neighbor = NEIGHBOR_NONE then some s
    else
      ((getNeighbor itr.neighbor itr.addr).map fun a => getTrueAddr a itr.areaType).foldlM
        (registerAccess t true itr.neighborType) s

/-- `register_task`, in which a task without predecessors opens a set. -/
def registerTask (p : Partition) (t : TaskId) (getNeighbor : Nat → Addr → List Addr)
    (addrs : List AddrTuple) : Option Partition := do
  let g := p.graph.addEndTask t
  let a := g.myAffinity.getAffinityId
  let g := { g with heap := g.heap.setAffinityId t a.1, myAffinity := a.2 }
  let s ← addrs.foldlM (registerTuple t getNeighbor) ({ p with graph := g }, 0)
  let p := s.1
  if s.2 = 0 then
    let set ← p.myDisjoinSet.makeSet p.sepId
    return {
      graph := { p.graph with needSpawnTasks := p.graph.needSpawnTasks ++ [t] }
      groupId := Function.update p.groupId t (p.sepId : Int)
      myDisjoinSet := set
      sepId := p.sepId + 1
      sepTask := Function.update p.sepTask p.sepId t }
  else return p

/-- `acemesh_task_generator`; the constructor of the task sets `group_id` to -1. -/
def taskGenerator (p : Partition) (spec : TaskSpec) : Option Partition :=
  let t := p.graph.fresh
  registerTask
    { p with
      graph := p.graph.alloc (Task.newAceMesh spec.junk)
      groupId := Function.update p.groupId t (-1) }
    t spec.getNeighbor spec.addrs

def Partition.build (p : Partition) : BuildCall → Option Partition
  | .registerTask spec => taskGenerator p spec
  | .beginSplitTask => some { p with graph := p.graph.beginSplitTask }
  | .beginSplitTaskNamed n => some { p with graph := p.graph.beginSplitTaskNamed n }
  | .endSplitTask => some { p with graph := p.graph.endSplitTask }

def Partition.buildAll (p : Partition) (calls : List BuildCall) : Option Partition :=
  calls.foldlM Partition.build p

/-- `find_set` of the group of a task. -/
def Partition.findGroup (p : Partition) (t : TaskId) : Option (Partition × Nat) := do
  let x ← (p.groupId t).toNat?
  let (set, id) ← p.myDisjoinSet.findSet x
  return ({ p with myDisjoinSet := set }, id)

/-- One turn of the loop in `end_construct_dag_separation`. -/
def hangGroup (s : Partition × (Int → Option TaskId)) (t : TaskId) :
    Option (Partition × (Int → Option TaskId)) :=
  (s.1.findGroup t).map fun r =>
    let h := hangEnd (r.2 : Int) t (r.1.graph, s.2)
    ({ r.1 with graph := h.1 }, h.2)

def endConstructDagSeparation (p : Partition) (order : List TaskId) :
    Option (Partition × (Int → Option TaskId)) :=
  order.foldlM (hangGroup) (p, fun _ => none)

/-- `spawn_and_wait_with_separation` up to the loop, called by the main thread of `r`. The
indices in `sep_data` are replaced by the tasks that `sep_task` has for them. -/
def separation (p : Partition) (order : List TaskId) (r : Runtime m) :
    Option (Separation m) := do
  let (set, data) ← p.myDisjoinSet.getSepData
  let (q, ends) ← endConstructDagSeparation { p with myDisjoinSet := set } order
  return ⟨{ r with graph := q.graph, log := [] },
    data.map fun b => (b.1, b.2.map q.sepTask), ends⟩

/-- The end of `spawn_and_wait_with_separation`. -/
def Partition.reset (p : Partition) : Partition :=
  { p with
    graph := p.graph.resetTaskGraph
    myDisjoinSet := p.myDisjoinSet.clear
    sepId := 0 }

/-! ## What registering a task keeps -/

/-- The graph and the number of edges, as the default build has them. -/
def plain (s : Partition × Nat) : TaskDagGraph × Nat := (s.1.graph, s.2)

/-- What `register_task` keeps for `t`, while the table names tasks of `dom` only. -/
structure Kept (t : TaskId) (dom : Set TaskId) (J : Partition × Nat → Prop) : Prop where
  table : ∀ s, J s → ∀ a e, s.1.graph.addrTask a = some e → ∀ u ∈ e.tasks, u ∈ dom
  tuples : ∀ s a type nb, J s →
    J ({ s.1 with graph := s.1.graph.addTuplesToVirtualTask t a type nb }, s.2)
  edge : ∀ s src nb, J s → src.t ∈ dom → ∃ p', addEdge t nb s.1 src = some p' ∧
    p'.graph = TaskDagGraph.addEdge t nb s.1.graph src ∧ J (p', s.2 + 1)

section Kept

variable {t : TaskId} {dom : Set TaskId} {J : Partition × Nat → Prop}

theorem Kept.buildReleationship (h : Kept t dom J) {p : Partition} {n : Nat} (hs : J (p, n))
    (type : InOut) {src : RwTask} (hsrc : ∀ u ∈ src.tasks, u ∈ dom) (nb : Bool) :
    ∃ r, buildReleationship p t type src nb = some r ∧
      plain r = p.graph.buildReleationship t type src nb ∧ J (r.1, n + r.2) := by
  have hedge : ∀ r ∈ src.rTasks ++ src.wTask.toList, r.t ∈ dom :=
    fun r hr => hsrc r.t (List.mem_map.mpr ⟨r, hr, rfl⟩)
  have hone : ∀ tmp, src.wTask = some tmp →
      ∃ r, (AutoPartition.addEdge t nb p tmp).map (fun p => (p, 1)) = some r ∧
        plain r = (TaskDagGraph.addEdge t nb p.graph tmp, 1) ∧ J (r.1, n + r.2) := by
    intro tmp htmp
    obtain ⟨p', hadd, hgraph, hp'⟩ := h.edge _ tmp nb hs (hedge tmp (by simp [htmp]))
    exact ⟨(p', 1), by rw [hadd]; rfl, congrArg (·, 1) hgraph, hp'⟩
  unfold AutoPartition.buildReleationship TaskDagGraph.buildReleationship
  by_cases hr : src.rTasks = []
  · rw [if_pos hr, if_pos hr]
    cases hw : src.wTask with
    | none => exact ⟨(p, 0), rfl, rfl, hs⟩
    | some tmp =>
        by_cases ht : type ≠ .INOUT_NONE
        · simp only [if_pos ht]
          exact hone tmp hw
        · simp only [if_neg ht]
          exact ⟨(p, 0), rfl, rfl, hs⟩
  · rw [if_neg hr, if_neg hr]
    by_cases hin : type = .IN
    · rw [if_pos hin, if_pos hin]
      cases hw : src.wTask with
      | none => exact ⟨(p, 0), rfl, rfl, hs⟩
      | some tmp => exact hone tmp hw
    · rw [if_neg hin, if_neg hin]
      refine Fold.follows (p := plain) (J := fun s => J (s.1, n + s.2)) ?_ hs
      intro r hr s hs
      by_cases ht : type ≠ .INOUT_NONE
      · obtain ⟨p', hadd, hgraph, hp'⟩ := h.edge _ r nb hs (hedge r (List.mem_append_left _ hr))
        simp only [if_pos ht]
        exact ⟨(p', s.2 + 1), by rw [hadd]; rfl, congrArg (·, s.2 + 1) hgraph, hp'⟩
      · simp only [if_neg ht]
        exact ⟨s, rfl, rfl, hs⟩

theorem Kept.registerAccess (h : Kept t dom J) {s : Partition × Nat} (hs : J s) (nb : Bool)
    (type : InOut) (a : Addr) :
    ∃ r, registerAccess t nb type s a = some r ∧
      plain r = TaskDagGraph.registerAccess t nb type (plain s) a ∧ J r := by
  have htuples := h.tuples s a type nb hs
  unfold AutoPartition.registerAccess TaskDagGraph.registerAccess
  have htable : (s.1.graph.addTuplesToVirtualTask t a type nb).addrTask = s.1.graph.addrTask :=
    rfl
  cases he : s.1.graph.addrTask a with
  | none =>
      simp only [plain, htable, he]
      exact ⟨_, rfl, rfl, htuples⟩
  | some src =>
      obtain ⟨r, hbuild, hplain, hr⟩ :=
        h.buildReleationship htuples type (h.table s hs a src he) nb
      simp only [plain, htable, he, hbuild, Option.map_some] at *
      refine ⟨_, rfl, ?_, hr⟩
      rw [← hplain]

theorem Kept.registerTuple (h : Kept t dom J) {s : Partition × Nat} (hs : J s)
    (getNeighbor : Nat → Addr → List Addr) (itr : AddrTuple) :
    ∃ r, registerTuple t getNeighbor s itr = some r ∧
      plain r = TaskDagGraph.registerTuple t getNeighbor (plain s) itr ∧ J r := by
  have hown : ∃ r, (if itr.addr ≠ 0 then
        AutoPartition.registerAccess t false itr.type s (getTrueAddr itr.addr itr.areaType)
      else some s) = some r ∧
      plain r = (if itr.addr ≠ 0 then
        TaskDagGraph.registerAccess t false itr.type (plain s)
          (getTrueAddr itr.addr itr.areaType)
      else plain s) ∧ J r := by
    by_cases ha : itr.addr ≠ 0
    · rw [if_pos ha, if_pos ha]
      exact h.registerAccess hs false itr.type _
    · rw [if_neg ha, if_neg ha]
      exact ⟨s, rfl, rfl, hs⟩
  obtain ⟨r, hr, hplain, hnext⟩ := hown
  unfold AutoPartition.registerTuple TaskDagGraph.registerTuple
  rw [hr, ← hplain, Option.bind_some]
  by_cases hnone : itr.neighbor = NEIGHBOR_NONE
  · rw [if_pos hnone, if_pos hnone]
    exact ⟨r, rfl, rfl, hnext⟩
  · rw [if_neg hnone, if_neg hnone]
    exact Fold.follows (fun a _ s hs => h.registerAccess hs true itr.neighborType a) hnext

end Kept

/-- A new task object before its first tuple. -/
def Partition.registerStart (p : Partition) (junk : Junk) : Partition :=
  { p with
    graph := (p.graph.alloc (Task.newAceMesh junk)).registerStart p.graph.fresh
    groupId := Function.update p.groupId p.graph.fresh (-1) }

/-- The lines for a task without predecessors. -/
def Partition.openSet (p : Partition) (t : TaskId) : Option Partition := do
  let set ← p.myDisjoinSet.makeSet p.sepId
  return {
    graph := { p.graph with needSpawnTasks := p.graph.needSpawnTasks ++ [t] }
    groupId := Function.update p.groupId t (p.sepId : Int)
    myDisjoinSet := set
    sepId := p.sepId + 1
    sepTask := Function.update p.sepTask p.sepId t }

/-- Behind the tuples, the new task opens a set unless an edge leads to it. -/
theorem Kept.taskGenerator {p : Partition} {dom : Set TaskId} {J : Partition × Nat → Prop}
    (h : Kept p.graph.fresh dom J) (spec : TaskSpec) (hstart : J (p.registerStart spec.junk, 0)) :
    ∃ s, J s ∧
      AutoPartition.taskGenerator p spec =
        (if s.2 = 0 then s.1.openSet p.graph.fresh else some s.1) ∧
      p.graph.taskGenerator spec =
        if s.2 = 0 then
          { s.1.graph with needSpawnTasks := s.1.graph.needSpawnTasks ++ [p.graph.fresh] }
        else s.1.graph := by
  obtain ⟨s, hfold, hplain, hs⟩ := Fold.follows (l := spec.addrs) (p := plain)
    (fun itr _ s hs => h.registerTuple hs spec.getNeighbor itr) hstart
  refine ⟨s, hs, ?_, ?_⟩
  · unfold AutoPartition.taskGenerator AutoPartition.registerTask
    exact congrArg (Option.bind · _) hfold
  · change _ = if (plain s).2 = 0 then { (plain s).1 with
      needSpawnTasks := (plain s).1.needSpawnTasks ++ [p.graph.fresh] } else (plain s).1
    rw [hplain]
    rfl

/-! ## The groups are the components -/

/-- An edge between two tasks of the graph. -/
def edge (lo : TaskId) (g : TaskDagGraph) (u v : TaskId) : Prop :=
  lo ≤ u ∧ u < g.fresh ∧ v ∈ (g.heap u).outs

/-- The set that a task belongs to. -/
def Partition.group (p : Partition) (rep : Nat → Nat) (u : TaskId) : Nat :=
  rep (p.groupId u).toNat

/-- The tasks in `dom` are in the sets of their components, and the sets are counted by the
tasks without predecessors. -/
structure Groups (lo : TaskId) (dom : Set TaskId) (p : Partition) (rep : Nat → Nat) :
    Prop where
  classes : p.myDisjoinSet.Classes rep
  maxN : p.myDisjoinSet.maxN = 10240
  size : p.myDisjoinSet.mySize = p.sepId
  ids : ∀ u ∈ dom, ∃ i < p.sepId, p.groupId u = (i : Int)
  colored : Colored dom (edge lo p.graph) (p.group rep)
  roots : p.graph.needSpawnTasks = (List.range p.sepId).map p.sepTask
  sepTask_id : ∀ i < p.sepId, p.groupId (p.sepTask i) = (i : Int)

theorem Groups.sepTask_mem {lo : TaskId} {dom : Set TaskId} {p : Partition} {rep : Nat → Nat}
    (h : Groups lo dom p rep) {i : Nat} (hi : i < p.sepId) :
    p.sepTask i ∈ p.graph.needSpawnTasks := by
  rw [h.roots]
  exact List.mem_map.mpr ⟨i, List.mem_range.mpr hi, rfl⟩

/-- What holds while `register_task` goes through the tuples of `t`, after `s.2` edges. -/
structure Registering (lo t : TaskId) (s : Partition × Nat) : Prop where
  lo_le : lo ≤ t
  fresh : s.1.graph.fresh = t + 1
  table : ∀ a e, s.1.graph.addrTask a = some e → ∀ u ∈ e.tasks, u ∈ Set.Ico lo t
  old : ∀ u ∈ s.1.graph.needSpawnTasks, u ∈ Set.Ico lo t
  isolated : s.2 = 0 → s.1.groupId t = -1 ∧ ∃ rep, Groups lo (Set.Ico lo t) s.1 rep
  joined : s.2 ≠ 0 → ∃ rep, Groups lo (insert t (Set.Ico lo t)) s.1 rep

theorem edge_addEdge {lo dest : TaskId} (nb : Bool) (g : TaskDagGraph) {src : TaskSignificance}
    (hlo : lo ≤ src.t) (hlt : src.t < g.fresh) (u v : TaskId) :
    edge lo (TaskDagGraph.addEdge dest nb g src) u v ↔
      edge lo g u v ∨ (u = src.t ∧ v = dest) := by
  have hfresh : (TaskDagGraph.addEdge dest nb g src).fresh = g.fresh :=
    addEdge_fresh dest nb g src
  have hadds := addEdge_heap dest nb g src
  unfold edge
  rw [hfresh]
  by_cases hu : u = src.t
  · subst hu
    rw [hadds.mem_outs]
    tauto
  · rw [hadds.outs_ne u hu]
    tauto

section Edge

variable {lo t : TaskId} {p : Partition} {rep : Nat → Nat} {src : TaskSignificance}

/-- The first edge: the task takes the group of its predecessor. -/
theorem Groups.attach (h : Groups lo (Set.Ico lo t) p rep) (hfresh : p.graph.fresh = t + 1)
    (hroot : ∀ u ∈ p.graph.needSpawnTasks, u ∈ Set.Ico lo t) (hsrc : src.t ∈ Set.Ico lo t) (nb : Bool) :
    Groups lo (insert t (Set.Ico lo t))
      { p with
        graph := TaskDagGraph.addEdge t nb p.graph src
        groupId := Function.update p.groupId t (p.groupId src.t) } rep := by
  have hne : ∀ u ∈ Set.Ico lo t, u ≠ t := fun u hu => Nat.ne_of_lt hu.2
  have hkeep : ∀ u ∈ Set.Ico lo t,
      Function.update p.groupId t (p.groupId src.t) u = p.groupId u :=
    fun u hu => Function.update_of_ne (hne u hu) ..
  have hself : Function.update p.groupId t (p.groupId src.t) t = p.groupId src.t :=
    Function.update_self ..
  refine ⟨h.classes, h.maxN, h.size, ?_, ?_, ?_, ?_⟩
  · rintro u (rfl | hu)
    · change ∃ i < p.sepId, Function.update p.groupId u (p.groupId src.t) u = (i : Int)
      rw [hself]
      exact h.ids src.t hsrc
    · change ∃ i < p.sepId, Function.update p.groupId t (p.groupId src.t) u = (i : Int)
      rw [hkeep u hu]
      exact h.ids u hu
  · have hold : Colored (Set.Ico lo t) (edge lo p.graph) fun u =>
        rep (Function.update p.groupId t (p.groupId src.t) u).toNat := by
      refine h.colored.congr (fun u v => Iff.rfl) fun u hu => ?_
      rw [hkeep u hu, Partition.group]
    refine hold.attach hsrc ?_ fun u v => edge_addEdge nb p.graph hsrc.1 ?_ u v
    · rw [hself, hkeep _ hsrc]
    · have := hsrc.2
      lia
  · exact (addEdge_needSpawnTasks t nb p.graph src).trans h.roots
  · intro i hi
    exact (hkeep _ (hroot _ (h.sepTask_mem hi))).trans (h.sepTask_id i hi)

/-- A later edge: the groups of the task and of its predecessor are united. -/
theorem Groups.join (h : Groups lo (insert t (Set.Ico lo t)) p rep)
    (hfresh : p.graph.fresh = t + 1) (hroot : ∀ u ∈ p.graph.needSpawnTasks, u ∈ Set.Ico lo t)
    (hsrc : src.t ∈ Set.Ico lo t) (nb : Bool) :
    ∃ p' rep', addEdge t nb p src = some p' ∧
      p'.graph = TaskDagGraph.addEdge t nb p.graph src ∧
      Groups lo (insert t (Set.Ico lo t)) p' rep' := by
  have hsrc' : src.t ∈ insert t (Set.Ico lo t) := Set.mem_insert_of_mem t hsrc
  have hmem : t ∈ insert t (Set.Ico lo t) := Set.mem_insert t _
  obtain ⟨x, hx, hxid⟩ := h.ids src.t hsrc'
  obtain ⟨y, hy, hyid⟩ := h.ids t hmem
  obtain ⟨set, r, hunion, hsize, hmax, hr, hrep, hclasses⟩ :=
    DisjoinSet.unionSet_spec h.classes (h.size.symm ▸ hx) (h.size.symm ▸ hy)
  have hrr : rep r = r := by
    rcases hrep with rfl | rfl
    · exact h.classes.forest.rep_rep (h.size.symm ▸ hx)
    · exact h.classes.forest.rep_rep (h.size.symm ▸ hy)
  refine ⟨{ p with
    graph := TaskDagGraph.addEdge t nb p.graph src
    myDisjoinSet := set
    groupId := Function.update p.groupId t (r : Int) }, DisjoinSet.merge rep x y r, ?_, rfl, ?_⟩
  · have hneg : ¬ p.groupId t < 0 := by lia
    unfold addEdge unionSet
    rw [if_neg hneg]
    simp only [hxid, hyid, Int.toNat?, hunion, Option.bind_eq_bind, Option.bind_some]
    rfl
  · have hcolor : ∀ z, ({ p with
        graph := TaskDagGraph.addEdge t nb p.graph src
        myDisjoinSet := set
        groupId := Function.update p.groupId t (r : Int) } : Partition).group
          (DisjoinSet.merge rep x y r) z =
        if p.group rep z = rep x ∨ p.group rep z = rep y then r else p.group rep z := by
      intro z
      by_cases hz : z = t
      · subst hz
        have hzy : p.group rep z = rep y := by rw [Partition.group, hyid, Int.toNat_natCast]
        rw [if_pos (Or.inr hzy), Partition.group]
        change DisjoinSet.merge rep x y r
          (Function.update p.groupId z (r : Int) z).toNat = r
        rw [Function.update_self, Int.toNat_natCast, DisjoinSet.merge, hrr, ite_self]
      · rw [Partition.group]
        change DisjoinSet.merge rep x y r (Function.update p.groupId t (r : Int) z).toNat = _
        rw [Function.update_of_ne hz]
        rfl
    have hxs : p.group rep src.t = rep x := by rw [Partition.group, hxid, Int.toNat_natCast]
    have hyt : p.group rep t = rep y := by rw [Partition.group, hyid, Int.toNat_natCast]
    refine ⟨hclasses, hmax.trans h.maxN, hsize.trans h.size, ?_, ?_, ?_, ?_⟩
    · intro u hu
      by_cases hut : u = t
      · subst hut
        exact ⟨r, h.size ▸ hr, Function.update_self ..⟩
      · change ∃ i < p.sepId, Function.update p.groupId t (r : Int) u = (i : Int)
        rw [Function.update_of_ne hut]
        exact h.ids u hu
    · refine h.colored.join hsrc' hmem (c := r) ?_ ?_ ?_ fun u v =>
        edge_addEdge nb p.graph hsrc.1 ?_ u v
      · rw [hxs, hyt]
        exact hrep
      · intro z hzs hzt
        rw [hcolor, if_neg]
        rw [← hxs, ← hyt]
        exact not_or.mpr ⟨hzs, hzt⟩
      · intro z hz
        rw [hcolor, if_pos]
        rw [← hxs, ← hyt]
        exact hz
      · have := hsrc.2
        lia
    · exact (addEdge_needSpawnTasks t nb p.graph src).trans h.roots
    · intro i hi
      have hne : p.sepTask i ≠ t := Nat.ne_of_lt (hroot _ (h.sepTask_mem hi)).2
      exact (Function.update_of_ne hne ..).trans (h.sepTask_id i hi)

end Edge

/-! ## Registering a task -/

section Register

variable {lo t : TaskId}

theorem Registering.addEdge {s : Partition × Nat} (h : Registering lo t s)
    {src : TaskSignificance} (hsrc : src.t ∈ Set.Ico lo t) (nb : Bool) :
    ∃ p', addEdge t nb s.1 src = some p' ∧
      p'.graph = TaskDagGraph.addEdge t nb s.1.graph src ∧ Registering lo t (p', s.2 + 1) := by
  have hframe : ∀ p' : Partition, p'.graph = TaskDagGraph.addEdge t nb s.1.graph src →
      (∃ rep, Groups lo (insert t (Set.Ico lo t)) p' rep) → Registering lo t (p', s.2 + 1) := by
    intro p' hgraph hgroups
    refine ⟨h.lo_le, ?_, ?_, ?_, fun hzero => absurd hzero (Nat.succ_ne_zero _), fun _ => hgroups⟩
    · change p'.graph.fresh = t + 1
      rw [hgraph]
      exact (addEdge_fresh t nb s.1.graph src).trans h.fresh
    · change ∀ a e, p'.graph.addrTask a = some e → _
      rw [hgraph]
      intro a e he
      exact h.table a e ((congrFun (addEdge_addrTask t nb s.1.graph src) a).symm.trans he)
    · change ∀ u ∈ p'.graph.needSpawnTasks, _
      have hkeep : (TaskDagGraph.addEdge t nb s.1.graph src).needSpawnTasks =
          s.1.graph.needSpawnTasks := addEdge_needSpawnTasks t nb s.1.graph src
      rw [hgraph, hkeep]
      exact h.old
  by_cases hzero : s.2 = 0
  · obtain ⟨hunset, rep, hgroups⟩ := h.isolated hzero
    refine ⟨_, ?_, rfl, hframe _ rfl ⟨rep, hgroups.attach h.fresh h.old hsrc nb⟩⟩
    unfold AutoPartition.addEdge unionSet
    rw [if_pos]
    change s.1.groupId t < 0
    rw [hunset]
    exact Int.negSucc_lt_zero 0
  · obtain ⟨rep, hgroups⟩ := h.joined hzero
    obtain ⟨p', rep', hadd, hgraph, hgroups'⟩ := hgroups.join h.fresh h.old hsrc nb
    exact ⟨p', hadd, hgraph, hframe p' hgraph ⟨rep', hgroups'⟩⟩

/-- Registering keeps the groups. -/
theorem Registering.kept : Kept t (Set.Ico lo t) (Registering lo t) where
  table := fun _ h => h.table
  tuples := by
    refine fun s a type nb h =>
      ⟨h.lo_le, h.fresh, h.table, h.old, fun hzero => ?_, fun hne => ?_⟩
    · obtain ⟨hunset, rep, hgroups⟩ := h.isolated hzero
      exact ⟨hunset, rep, { hgroups with }⟩
    · obtain ⟨rep, hgroups⟩ := h.joined hne
      exact ⟨rep, { hgroups with }⟩
  edge := fun _ _ nb h hsrc => h.addEdge hsrc nb

/-- A task without predecessors opens a set. -/
theorem Groups.openSet {p : Partition} {rep : Nat → Nat} (h : Groups lo (Set.Ico lo t) p rep)
    (hroot : ∀ u ∈ p.graph.needSpawnTasks, u ∈ Set.Ico lo t) (hfits : p.sepId < 10240) :
    ∃ p' rep', p.openSet t = some p' ∧
      p'.graph = { p.graph with needSpawnTasks := p.graph.needSpawnTasks ++ [t] } ∧
      Groups lo (insert t (Set.Ico lo t)) p' rep' := by
  have hfits' : p.myDisjoinSet.mySize < p.myDisjoinSet.maxN := by
    rw [h.size, h.maxN]
    exact hfits
  obtain ⟨set, hmake, hsize, hmax, hclasses⟩ := DisjoinSet.makeSet_spec h.classes hfits'
  rw [h.size] at hmake hsize hclasses
  have hne : ∀ u ∈ Set.Ico lo t, u ≠ t := fun u hu => Nat.ne_of_lt hu.2
  have hkeep : ∀ u ∈ Set.Ico lo t,
      Function.update p.groupId t (p.sepId : Int) u = p.groupId u :=
    fun u hu => Function.update_of_ne (hne u hu) ..
  have hself : Function.update p.groupId t (p.sepId : Int) t = (p.sepId : Int) :=
    Function.update_self ..
  have hset : ∀ i < p.sepId, Function.update p.sepTask p.sepId t i = p.sepTask i :=
    fun i hi => Function.update_of_ne (Nat.ne_of_lt hi) ..
  have hcolor : ∀ u ∈ Set.Ico lo t, Function.update rep p.sepId p.sepId
      (Function.update p.groupId t (p.sepId : Int) u).toNat = p.group rep u := by
    intro u hu
    obtain ⟨i, hi, hid⟩ := h.ids u hu
    rw [hkeep u hu, Partition.group, hid, Int.toNat_natCast,
      Function.update_of_ne (Nat.ne_of_lt hi)]
  refine ⟨_, _, by rw [Partition.openSet, hmake]; rfl, rfl, hclasses, hmax.trans h.maxN, hsize,
    ?_, ?_, ?_, ?_⟩
  · rintro u (rfl | hu)
    · exact ⟨p.sepId, Nat.lt_succ_self _, hself⟩
    · obtain ⟨i, hi, hid⟩ := h.ids u hu
      exact ⟨i, Nat.lt_succ_of_lt hi, (hkeep u hu).trans hid⟩
  · have hold : Colored (Set.Ico lo t) (edge lo p.graph) fun u =>
        Function.update rep p.sepId p.sepId
          (Function.update p.groupId t (p.sepId : Int) u).toNat :=
      h.colored.congr (fun u v => Iff.rfl) hcolor
    refine hold.isolated fun u hu => ?_
    rw [hcolor u hu, hself, Int.toNat_natCast, Function.update_self]
    obtain ⟨i, hi, hid⟩ := h.ids u hu
    rw [Partition.group, hid, Int.toNat_natCast]
    have hlt := h.classes.forest.rep_lt (x := i) (h.size.symm ▸ hi)
    rw [h.size] at hlt
    exact Nat.ne_of_lt hlt
  · change p.graph.needSpawnTasks ++ [t] =
      (List.range (p.sepId + 1)).map (Function.update p.sepTask p.sepId t)
    rw [List.range_succ, List.map_append, List.map_singleton, Function.update_self, h.roots]
    refine congrArg (· ++ [t]) (List.map_congr_left fun i hi => ?_)
    exact (hset i (List.mem_range.mp hi)).symm
  · intro i hi
    change Function.update p.groupId t (p.sepId : Int)
      (Function.update p.sepTask p.sepId t i) = (i : Int)
    rcases Nat.lt_succ_iff_lt_or_eq.mp hi with hi | rfl
    · rw [hset i hi, hkeep _ (hroot _ (h.sepTask_mem hi))]
      exact h.sepTask_id i hi
    · rw [Function.update_self, hself]

end Register

/-! ## Building a graph -/

/-- The bookkeeping of the default build, and the groups. -/
structure Built (lo : TaskId) (p : Partition) : Prop where
  book : Book lo p.graph
  groups : ∃ rep, Groups lo (Set.Ico lo p.graph.fresh) p rep

/-- The task object is there, and no tuple has been looked at. -/
theorem Built.registering {lo : TaskId} {p : Partition} (h : Built lo p) (junk : Junk) :
    Registering lo p.graph.fresh (p.registerStart junk, 0) := by
  obtain ⟨rep, hgroups⟩ := h.groups
  have hroot : ∀ u ∈ p.graph.needSpawnTasks, u ∈ Set.Ico lo p.graph.fresh :=
    fun u hu => ((h.book.mem_roots u).mp hu).1
  have hkeep : ∀ u ∈ Set.Ico lo p.graph.fresh,
      Function.update p.groupId p.graph.fresh (-1) u = p.groupId u :=
    fun u hu => Function.update_of_ne (Nat.ne_of_lt hu.2) ..
  have hedge : ∀ u v, edge lo ((p.graph.alloc (Task.newAceMesh junk)).registerStart
      p.graph.fresh) u v ↔ edge lo p.graph u v := by
    intro u v
    change lo ≤ u ∧ u < p.graph.fresh + 1 ∧ v ∈ _ ↔ lo ≤ u ∧ u < p.graph.fresh ∧ v ∈ _
    by_cases hu : u = p.graph.fresh
    · subst hu
      rw [registerStart_new]
      simp [Task.outs, Task.newAceMesh]
    · rw [registerStart_old p.graph junk hu]
      have : u < p.graph.fresh + 1 ↔ u < p.graph.fresh := by lia
      rw [this]
  refine ⟨h.book.lo_le, rfl, h.book.table, hroot, fun _ => ⟨Function.update_self .., rep, ?_⟩,
    fun hne => absurd rfl hne⟩
  refine ⟨hgroups.classes, hgroups.maxN, hgroups.size, ?_, ?_, hgroups.roots, ?_⟩
  · intro u hu
    obtain ⟨i, hi, hid⟩ := hgroups.ids u hu
    exact ⟨i, hi, (hkeep u hu).trans hid⟩
  · exact hgroups.colored.congr hedge fun u hu =>
      congrArg (fun id => rep (Int.toNat id)) (hkeep u hu)
  · intro i hi
    exact (hkeep _ (hroot _ (hgroups.sepTask_mem hi))).trans (hgroups.sepTask_id i hi)

theorem Built.taskGenerator {lo : TaskId} {p : Partition} (h : Built lo p) (spec : TaskSpec)
    (hfits : (p.graph.taskGenerator spec).needSpawnTasks.length ≤ 10240) :
    ∃ p', AutoPartition.taskGenerator p spec = some p' ∧
      p'.graph = p.graph.taskGenerator spec ∧ Built lo p' := by
  obtain ⟨s, hs, hgen, hgraph⟩ := Registering.kept.taskGenerator spec (h.registering spec.junk)
  have hdom : insert p.graph.fresh (Set.Ico lo p.graph.fresh) =
      Set.Ico lo (p.graph.fresh + 1) := by
    ext u
    simp only [Set.mem_insert_iff, Set.mem_Ico]
    have := h.book.lo_le
    lia
  have hbook := h.book.taskGenerator spec
  have hbuilt : ∀ p' : Partition, p'.graph = p.graph.taskGenerator spec →
      (∃ rep, Groups lo (insert p.graph.fresh (Set.Ico lo p.graph.fresh)) p' rep) →
      Built lo p' := by
    intro p' hp' hgroups
    refine ⟨hp' ▸ hbook, ?_⟩
    rw [hp', taskGenerator_fresh, ← hdom]
    exact hgroups
  rw [hgen]
  by_cases hzero : s.2 = 0
  · obtain ⟨-, rep, hgroups⟩ := hs.isolated hzero
    rw [hgraph, if_pos hzero] at hfits
    have hlength : s.1.graph.needSpawnTasks.length = s.1.sepId := by
      rw [hgroups.roots, List.length_map, List.length_range]
    have hlt : s.1.sepId < 10240 := by
      rw [List.length_append, List.length_singleton] at hfits
      change s.1.graph.needSpawnTasks.length + 1 ≤ 10240 at hfits
      omega
    obtain ⟨p', rep', hopen, hgraph', hgroups'⟩ := hgroups.openSet hs.old hlt
    rw [if_pos hzero, hopen]
    rw [if_pos hzero, ← hgraph'] at hgraph
    exact ⟨p', rfl, hgraph.symm, hbuilt p' hgraph.symm ⟨rep', hgroups'⟩⟩
  · rw [if_neg hzero]
    rw [if_neg hzero] at hgraph
    exact ⟨s.1, rfl, hgraph.symm, hbuilt s.1 hgraph.symm (hs.joined hzero)⟩

/-- Another table, other recorded tuples, another affinity. -/
theorem Built.congr {lo : TaskId} {p : Partition} (h : Built lo p) {g : TaskDagGraph}
    (hbook : Book lo g) (hheap : g.heap = p.graph.heap) (hfresh : g.fresh = p.graph.fresh)
    (hroots : g.needSpawnTasks = p.graph.needSpawnTasks) :
    Built lo { p with graph := g } := by
  obtain ⟨rep, hgroups⟩ := h.groups
  refine ⟨hbook, rep, hgroups.classes, hgroups.maxN, hgroups.size, ?_, ?_, ?_,
    hgroups.sepTask_id⟩
  · change ∀ u ∈ Set.Ico lo g.fresh, _
    rw [hfresh]
    exact hgroups.ids
  · change Colored (Set.Ico lo g.fresh) (edge lo g) (p.group rep)
    have hedge : edge lo g = edge lo p.graph := by
      unfold edge
      rw [hheap, hfresh]
    rw [hedge, hfresh]
    exact hgroups.colored
  · exact hroots.trans hgroups.roots

theorem Built.build {lo : TaskId} {p : Partition} (h : Built lo p) (c : BuildCall)
    (hfits : (p.graph.build c).needSpawnTasks.length ≤ 10240) :
    ∃ p', p.build c = some p' ∧ p'.graph = p.graph.build c ∧ Built lo p' := by
  cases c with
  | registerTask spec => exact h.taskGenerator spec hfits
  | beginSplitTask => exact ⟨_, rfl, rfl, h.congr h.book.beginSplitTask rfl rfl rfl⟩
  | beginSplitTaskNamed n =>
      exact ⟨_, rfl, rfl, h.congr (h.book.beginSplitTaskNamed n) rfl rfl rfl⟩
  | endSplitTask =>
      refine ⟨_, rfl, rfl, h.congr h.book.endSplitTask ?_ ?_ ?_⟩
      all_goals rw [endSplitTask_eq]

theorem roots_length_build (g : TaskDagGraph) (c : BuildCall) :
    g.needSpawnTasks.length ≤ (g.build c).needSpawnTasks.length := by
  cases c with
  | registerTask spec =>
      change _ ≤ (g.taskGenerator spec).needSpawnTasks.length
      rw [taskGenerator_roots]
      split
      · rw [List.length_append]
        exact Nat.le_add_right _ _
      · exact le_refl _
  | beginSplitTask => exact le_refl _
  | beginSplitTaskNamed n => exact le_refl _
  | endSplitTask =>
      change _ ≤ g.endSplitTask.needSpawnTasks.length
      rw [endSplitTask_eq]

theorem roots_length_buildAll (g : TaskDagGraph) (calls : List BuildCall) :
    g.needSpawnTasks.length ≤ (g.buildAll calls).needSpawnTasks.length := by
  induction calls generalizing g with
  | nil => exact le_refl _
  | cons c calls ih => exact (roots_length_build g c).trans (ih (g.build c))

theorem Built.buildAll {lo : TaskId} {p : Partition} (h : Built lo p) (calls : List BuildCall)
    (hfits : (p.graph.buildAll calls).needSpawnTasks.length ≤ 10240) :
    ∃ p', p.buildAll calls = some p' ∧ p'.graph = p.graph.buildAll calls ∧ Built lo p' := by
  induction calls generalizing p with
  | nil => exact ⟨p, rfl, rfl, h⟩
  | cons c calls ih =>
      obtain ⟨p₁, hone, hgraph, h₁⟩ :=
        h.build c ((roots_length_buildAll (p.graph.build c) calls).trans hfits)
      have hrest : p₁.graph.buildAll calls = p.graph.buildAll (c :: calls) := by
        rw [hgraph]
        rfl
      obtain ⟨p', hall, hgraph', h'⟩ := ih h₁ (hrest ▸ hfits)
      refine ⟨p', ?_, hgraph'.trans hrest, h'⟩
      unfold Partition.buildAll
      rw [List.foldlM_cons, hone]
      exact hall

/-- No set has been made since the constructor or the last `clear`. -/
structure Clear (p : Partition) : Prop where
  graph : Blank p.graph
  maxN : p.myDisjoinSet.maxN = 10240
  count : p.myDisjoinSet.count = 0
  mySize : p.myDisjoinSet.mySize = 0
  sepId : p.sepId = 0

/-- The next loop starts over. -/
theorem Clear.reset {p : Partition} (hmax : p.myDisjoinSet.maxN = 10240) :
    Clear { p.reset with graph := p.reset.graph.beginSplitTask } :=
  ⟨blank_resetTaskGraph p.graph, hmax, rfl, rfl, rfl⟩

theorem Clear.built {p : Partition} (h : Clear p) : Built p.graph.fresh p := by
  have hdom : Set.Ico p.graph.fresh p.graph.fresh = ∅ := Set.Ico_self _
  refine ⟨h.graph.book, id, .blank h.count h.mySize id, h.maxN,
    h.mySize.trans h.sepId.symm, ?_, ?_, ?_, ?_⟩
  · simp
  · rw [hdom]
    refine Colored.empty _ ?_
    rintro u v ⟨hlo, hhi, -⟩
    lia
  · rw [h.graph.needSpawnTasks, h.sepId]
    rfl
  · rw [h.sepId]
    exact fun i hi => absurd hi (Nat.not_lt_zero i)

/-! ## Closing the graph -/

section Closed

variable {lo : TaskId} {p : Partition} {rep : Nat → Nat}

/-- `find_set` looks at the groups of the tasks only. -/
theorem Groups.findGroup {dom : Set TaskId} (h : Groups lo dom p rep) {t : TaskId}
    (ht : t ∈ dom) :
    ∃ set, Groups lo dom { p with myDisjoinSet := set } rep ∧
      ∀ g, ({ p with graph := g } : Partition).findGroup t =
        some ({ p with graph := g, myDisjoinSet := set }, p.group rep t) := by
  obtain ⟨i, hi, hid⟩ := h.ids t ht
  obtain ⟨set, hfind, hsize, hmax, hclasses⟩ :=
    DisjoinSet.findSet_spec h.classes (h.size.symm ▸ hi)
  refine ⟨set,
    { h with classes := hclasses, maxN := hmax.trans h.maxN, size := hsize.trans h.size },
    fun g => ?_⟩
  rw [Partition.group, hid, Int.toNat_natCast]
  unfold Partition.findGroup
  rw [hid]
  simp only [Int.toNat?, Option.bind_eq_bind, Option.bind_some, hfind]
  rfl

/-- `end_construct_dag_separation` hangs the end tasks on those of their sets. -/
theorem Groups.endConstruct {dom : Set TaskId} (h : Groups lo dom p rep)
    {order : List TaskId} (hdom : ∀ t ∈ order, t ∈ dom) :
    ∃ q, endConstructDagSeparation p order = some q ∧
      (q.1.graph, q.2) =
        order.foldl (fun s t => hangEnd (p.group rep t) t s) (p.graph, fun _ => none) ∧
      q.1.sepTask = p.sepTask := by
  -- the groups of the tasks stay, whatever happens to the heap
  let J (s : Partition × (Int → Option TaskId)) : Prop :=
    ∃ set, Groups lo dom { p with myDisjoinSet := set } rep ∧
      s.1 = { p with graph := s.1.graph, myDisjoinSet := set }
  have hstep : ∀ t ∈ order, ∀ s, J s → ∃ s', hangGroup s t = some s' ∧
      (s'.1.graph, s'.2) = hangEnd (p.group rep t) t (s.1.graph, s.2) ∧ J s' := by
    rintro t ht s ⟨set, hset, heq⟩
    obtain ⟨set', hset', hfind⟩ := hset.findGroup (hdom t ht)
    have hone := hfind s.1.graph
    rw [← heq] at hone
    exact ⟨_, by rw [hangGroup, hone]; rfl, rfl, set', hset', rfl⟩
  have hstart : J (p, fun _ => none) := ⟨p.myDisjoinSet, h, rfl⟩
  obtain ⟨q, hall, hgraph, set, -, heq⟩ := Fold.follows (f := hangGroup)
    (g := fun s t => hangEnd (p.group rep t) t s)
    (p := fun s : Partition × (Int → Option TaskId) => (s.1.graph, s.2)) hstep hstart
  exact ⟨q, hall, hgraph, by rw [heq]⟩

/-- What `spawn_and_wait_with_separation` has before the loop. -/
theorem Groups.separation (hb : Book lo p.graph)
    (h : Groups lo (Set.Ico lo p.graph.fresh) p rep) {order : List TaskId}
    (horder : order.Perm p.graph.endTasks) (r : Runtime m) :
    ∃ s sepData, separation p order r =
        some ⟨{ r with graph := s.1, log := [] }, sepData, s.2⟩ ∧
      Hung p.graph (fun u => (p.group rep u : Int)) order s ∧
      Buckets (fun u => (p.group rep u : Int)) p.graph.needSpawnTasks sepData := by
  obtain ⟨set, data, hdata, hsize, hmax, hclasses, hbuckets⟩ :=
    DisjoinSet.getSepData_spec h.classes
  have hset : Groups lo (Set.Ico lo p.graph.fresh) { p with myDisjoinSet := set } rep :=
    { h with classes := hclasses, maxN := hmax.trans h.maxN, size := hsize.trans h.size }
  have hends : ∀ t ∈ order, t ∈ Set.Ico lo p.graph.fresh :=
    fun t ht => ((hb.edges.mem_ends t).mp (horder.mem_iff.mp ht)).1
  obtain ⟨q, hq, hgraph, htask⟩ := hset.endConstruct hends
  refine ⟨(q.1.graph, q.2), data.map fun b => (b.1, b.2.map p.sepTask), ?_, ?_, ?_⟩
  · unfold AutoPartition.separation
    simp only [hdata, Option.bind_eq_bind, Option.bind_some, hq, htask]
    rfl
  · rw [hgraph]
    have hnd : ([] ++ order).Nodup := horder.nodup_iff.mpr hb.edges.ends_nodup
    exact (Hung.start p.graph _).hangAll hnd fun t ht => (hends t ht).2
  · rw [h.roots]
    rw [h.size] at hbuckets
    refine hbuckets.map p.sepTask fun i hi => ?_
    have hid := h.sepTask_id i (List.mem_range.mp hi)
    rw [Partition.group, hid, Int.toNat_natCast]

end Closed

theorem edge_iff {lo : TaskId} {g : TaskDagGraph} (hb : Book lo g) (u v : TaskId) :
    edge lo g u v ↔
      Release.Edge (Finset.Ico lo g.fresh) (fun t => (g.heap t).outs) u v := by
  unfold edge Release.Edge
  rw [Finset.mem_Ico, Finset.mem_Ico]
  constructor
  · rintro ⟨hlo, hhi, hmem⟩
    have hfwd := hb.edges.forward u hlo hhi v hmem
    exact ⟨⟨hlo, hhi⟩, ⟨by lia, hfwd.2⟩, hmem⟩
  · rintro ⟨⟨hlo, hhi⟩, -, hmem⟩
    exact ⟨hlo, hhi, hmem⟩

/-- Two tasks are in one set if and only if they are connected. -/
theorem Groups.group_eq_iff {lo : TaskId} {p : Partition} {rep : Nat → Nat}
    (hb : Book lo p.graph) (h : Groups lo (Set.Ico lo p.graph.fresh) p rep) {a b : TaskId}
    (ha : a ∈ Finset.Ico lo p.graph.fresh) (hb' : b ∈ Finset.Ico lo p.graph.fresh) :
    p.group rep a = p.group rep b ↔
      EqvGen (Release.Edge (Finset.Ico lo p.graph.fresh) fun t => (p.graph.heap t).outs) a b := by
  have hedge : edge lo p.graph =
      Release.Edge (Finset.Ico lo p.graph.fresh) fun t => (p.graph.heap t).outs := by
    ext u v
    exact edge_iff hb u v
  rw [h.colored.iff_eqvGen (Finset.mem_Ico.mp ha) (Finset.mem_Ico.mp hb'), hedge]

/-- The `AUTO_PARTITION` build, for every graph with at most 10240 tasks without
predecessors. `find_set` tells the components of the graph apart; `sep_data` lists the tasks
without predecessors by component, every component has an end task on which exactly its end
tasks count, and every task is executed exactly once, in any interleaving, before
`spawn_and_wait_with_separation` returns. -/
theorem auto_partition_exact {p₀ : Partition} (hclear : Clear p₀) (calls : List BuildCall)
    (hfits : (p₀.graph.buildAll calls).needSpawnTasks.length ≤ 10240) :
    ∃ p, p₀.buildAll calls = some p ∧ p.graph = p₀.graph.buildAll calls ∧
      let tasks := Finset.Ico p₀.graph.fresh p.graph.fresh
      let connected := EqvGen (Release.Edge tasks fun t => (p.graph.heap t).outs)
      (∀ a ∈ tasks, ∀ b ∈ tasks, ∃ p₁ p₂ x y, p.findGroup a = some (p₁, x) ∧
        p₁.findGroup b = some (p₂, y) ∧ (x = y ↔ connected a b)) ∧
      ∀ order : List TaskId, order.Perm p.graph.endTasks →
        ∀ r : Runtime m, r.graph = p.graph → r.Idle →
        (∀ i t, (r.pc i).object = some t → t < p₀.graph.fresh) → r.main = .prog →
        r.pc 0 = .next →
        (∀ t ∈ tasks, 0 ≤ (r.heap t).affinityId ∧ (r.heap t).affinityId < (m + 1 : Nat)) →
        ∃ (s₀ : Separation m) (part : TaskId → Int), separation p order r = some s₀ ∧
          (∀ a ∈ tasks, ∀ b ∈ tasks, part a = part b ↔ connected a b) ∧
          Buckets part p.graph.needSpawnTasks s₀.sepData ∧
          (∀ a ∈ tasks, ∃ e, s₀.sepEndTasks (part a) = some e ∧
            (s₀.runtime.heap e).refCount = p.graph.endTasks.countP (part · = part a) ∧
            ∀ u ∈ tasks, e ∈ s₀.runtime.outs u ↔ u ∈ p.graph.endTasks ∧ connected u a) ∧
          ∃ s₁, s₀.nextPart = some s₁ ∧ ∀ s, s₁.Steps s → RunsAll tasks s := by
  obtain ⟨p, hall, hgraph, hbuilt⟩ := hclear.built.buildAll calls hfits
  obtain ⟨rep, hgroups⟩ := hbuilt.groups
  have hb := hbuilt.book
  refine ⟨p, hall, hgraph, fun a ha b hb' => ?_, ?_⟩
  · obtain ⟨set, hset, hfind⟩ := hgroups.findGroup (Finset.mem_Ico.mp ha)
    obtain ⟨set', -, hfind'⟩ := hset.findGroup (Finset.mem_Ico.mp hb')
    exact ⟨_, _, _, _, hfind p.graph, hfind' p.graph, hgroups.group_eq_iff hb ha hb'⟩
  · intro order horder r hr hidle hold hmain hpc haffinity
    obtain ⟨s, sepData, hsep, hs, hdata⟩ := hgroups.separation hb horder r
    have hheap : r.heap = p.graph.heap := congrArg TaskDagGraph.heap hr
    have hpart : ∀ a ∈ Finset.Ico p₀.graph.fresh p.graph.fresh,
        ∀ b ∈ Finset.Ico p₀.graph.fresh p.graph.fresh,
        ((p.group rep a : Int) = p.group rep b ↔ EqvGen (Release.Edge
          (Finset.Ico p₀.graph.fresh p.graph.fresh) fun t => (p.graph.heap t).outs) a b) :=
      fun a ha b hb' => Int.natCast_inj.trans (hgroups.group_eq_iff hb ha hb')
    have hclosed : ∀ u v, Release.Edge (Finset.Ico p₀.graph.fresh p.graph.fresh)
        (fun t => (p.graph.heap t).outs) u v → (p.group rep u : Int) = p.group rep v :=
      fun u v huv => (hpart u huv.1 v huv.2.1).mpr (EqvGen.rel u v huv)
    refine ⟨_, _, hsep, hpart, hdata, fun a ha => ?_, ?_⟩
    · obtain ⟨t, ht, hlast, hpath⟩ := Release.exists_last hb.acyclic ha
      have hsame : (p.group rep t : Int) = p.group rep a := by
        clear ht hlast
        induction hpath with
        | refl => rfl
        | tail _ hedge ih => exact (hclosed _ _ hedge).symm.trans ih
      obtain ⟨e, he, hcount, houts⟩ :=
        hs.partEnd hb horder (hb.mem_endTasks ht fun x hx => hlast x hx)
      rw [hsame] at he hcount houts
      rw [horder.countP_eq] at hcount
      refine ⟨e, he, hcount, fun u hu => ?_⟩
      exact (houts u hu).trans (and_congr_right fun _ => hpart u hu a ha)
    · refine separation_correct
        (hs.ready hb horder ?_ hdata hr hidle hold hmain hpc) (hs.inTurn hb horder ?_)
      · intro t ht
        rw [hs.affinityId (Finset.mem_Ico.mp ht).2, ← hheap]
        exact haffinity t ht
      · exact Release.inTurn_of_closed hb.acyclic hclosed _

/-! ## Two components -/

namespace Example

def task (type : InOut) (addrs : List Addr) : BuildCall :=
  .registerTask ⟨⟨false, 0⟩, fun _ _ => [],
    addrs.map fun a => ⟨a, .NORMAL, type, NEIGHBOR_NONE, .INOUT_NONE⟩⟩

/-- Three addresses are written. A task reads the first two, another the third. -/
def calls : List BuildCall :=
  [.beginSplitTask, task .OUT [8], task .OUT [16], task .OUT [24], .endSplitTask,
    .beginSplitTask, task .IN [8, 16], task .IN [24], .endSplitTask]

def blank : Partition :=
  ⟨TaskDagGraph.init 2, fun _ => -1, ⟨10240, fun _ => 0, fun _ => 0, 0, 0⟩, 0, fun _ => 0⟩

theorem clear_blank : Clear blank := ⟨blank_init 2, rfl, rfl, rfl, rfl⟩

def start (p : Partition) : Option (Separation 1) :=
  separation p p.graph.endTasks (Runtime.initial p.graph)

end Example

/-- The two tasks that the reader of both has joined run first, then the third. -/
theorem auto_partition_exact_joined : ∃ (p : Partition) (s₀ s₁ s : Separation 1),
    Example.blank.buildAll Example.calls = some p ∧ Example.start p = some s₀ ∧
    s₀.sepData = [(0, [0, 1]), (2, [2])] ∧ s₀.nextPart = some s₁ ∧ s₁.Steps s ∧
    s.runtime.main = .prog ∧ s.runtime.log.length = 15 ∧ RunsAll (Finset.Ico 0 5) s := by
  obtain ⟨p, hp, hgraph, -, hall⟩ :=
    @auto_partition_exact 1 Example.blank Example.clear_blank Example.calls (by decide)
  have hfresh : p.graph.fresh = 5 := by
    rw [hgraph]
    decide
  have hready : ∀ i t, ((Runtime.initial p.graph : Runtime 1).pc i).object = some t → t < 0 := by
    intro i t ht
    cases ht
  have haffinity : ∀ t ∈ Finset.Ico 0 5, 0 ≤ (p.graph.heap t).affinityId ∧
      (p.graph.heap t).affinityId < (1 + 1 : Nat) := by
    rw [hgraph]
    decide
  obtain ⟨s₀, part, hs₀, -, -, -, s₁, hs₁, hruns⟩ := hall _
    (List.Perm.refl _) (Runtime.initial p.graph) rfl (Runtime.idle_initial _) hready rfl rfl
    (by rw [hfresh]; exact haffinity)
  have hrun : ((Example.blank.buildAll Example.calls).bind fun p => (Example.start p).bind
      fun s₀ => s₀.nextPart.bind fun s₁ => (s₁.runSchedule
        (List.replicate 41 [(1, true), (1, true), (0, true)]).flatten).map fun s =>
          (s₀.sepData, s.runtime.main, s.runtime.log.length)) =
      some ([(0, [0, 1]), (2, [2])], .prog, 15) := by decide
  have hstart : Example.start p = some s₀ := hs₀
  rw [hp, Option.bind_some, hstart, Option.bind_some, hs₁, Option.bind_some] at hrun
  obtain ⟨s, hschedule, hend⟩ := Option.map_eq_some_iff.mp hrun
  obtain ⟨hdata, hrest⟩ := Prod.mk.inj hend
  obtain ⟨hmain, hlog⟩ := Prod.mk.inj hrest
  have hsteps := Separation.steps_of_runSchedule hschedule
  have hdone := hruns s hsteps
  rw [hfresh] at hdone
  exact ⟨p, s₀, s₁, s, hp, hstart, hdata, hs₁, hsteps, hmain, hlog, hdone⟩

end AutoPartition

end AceMesh
