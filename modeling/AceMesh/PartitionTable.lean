import AceMesh.AutoPartition

/-!
# The room in the partition table

The constructor of the graph gives `my_disjoin_set` room for 10240 sets. `register_task` opens
a set for every task without predecessors and compares `sep_id` with nothing; only the two
functions that spawn start over with the first set. `Indexed` says that the tasks the next
one can meet are in sets that have been made, so that `make_set` is the only access that can
leave the arrays.
-/

namespace AceMesh

open TaskDagGraph

namespace AutoPartition

/-! ## Calls -/

/-- The end of `spawn_and_wait`, which leaves the sets alone up to here; `graph` is what the
execution of the tasks leaves. -/
def Partition.spawnAndWait (p : Partition) (graph : TaskDagGraph) : Partition :=
  { p with graph }.reset

/-- The end of `spawn_and_wait_with_separation`; `father` is what its calls of `find_set`
leave. -/
def Partition.spawnAndWaitWithSeparation (p : Partition) (graph : TaskDagGraph)
    (father : Nat → Nat) : Partition :=
  { p with graph, myDisjoinSet := { p.myDisjoinSet with father } }.reset

/-- A call of the program. -/
inductive Call
  | build (c : BuildCall)
  | spawnAndWait (graph : TaskDagGraph)
  | spawnAndWaitWithSeparation (graph : TaskDagGraph) (father : Nat → Nat)

def Partition.call (p : Partition) : Call → Option Partition
  | .build c => p.build c
  | .spawnAndWait graph => some (p.spawnAndWait graph)
  | .spawnAndWaitWithSeparation graph father =>
    some (p.spawnAndWaitWithSeparation graph father)

def Partition.callAll (p : Partition) (calls : List Call) : Option Partition :=
  calls.foldlM Partition.call p

/-- Whether a loop has been begun since the last spawn, after a call. -/
def Call.begun (begun : Bool) : Call → Bool
  | .build .beginSplitTask => true
  | .build (.beginSplitTaskNamed _) => true
  | .build (.registerTask _) => begun
  | .build .endSplitTask => begun
  | .spawnAndWait _ => false
  | .spawnAndWaitWithSeparation _ _ => false

/-- No loop is ended that has not been begun since the last spawn: the tuples that are recorded
would be those of tasks that the spawn has executed and deleted. -/
def LoopsBegun : Bool → List Call → Prop
  | _, [] => True
  | begun, c :: calls =>
    (c = .build .endSplitTask → begun = true) ∧ LoopsBegun (c.begun begun) calls

/-- The graph, as the default build has it. -/
def callGraph (g : TaskDagGraph) : Call → TaskDagGraph
  | .build c => g.build c
  | .spawnAndWait graph => graph.resetTaskGraph
  | .spawnAndWaitWithSeparation graph _ => graph.resetTaskGraph

def callGraphAll (g : TaskDagGraph) (calls : List Call) : TaskDagGraph :=
  calls.foldl callGraph g

/-- Whenever a task without predecessors has been registered, at most 10240 of them wait for
the next spawn. -/
def Fits (g : TaskDagGraph) (calls : List Call) : Prop :=
  ∀ pre, pre <+: calls → (callGraphAll g pre).needSpawnTasks.length ≤ 10240

/-! ## The indices -/

/-- The task is in a set that has been made. -/
def Partition.HasGroup (p : Partition) (u : TaskId) : Prop :=
  ∃ i < p.sepId, p.groupId u = (i : Int)

/-- There are as many sets as tasks without predecessors. -/
structure Counted (p : Partition) : Prop where
  classes : ∃ rep, p.myDisjoinSet.Classes rep
  maxN : p.myDisjoinSet.maxN = 10240
  size : p.myDisjoinSet.mySize = p.sepId
  roots : p.graph.needSpawnTasks.length = p.sepId

/-- The tasks that the next one can meet have groups. -/
structure Indexed (begun : Bool) (p : Partition) : Prop extends Counted p where
  table : ∀ a e, p.graph.addrTask a = some e → ∀ u ∈ e.tasks, u < p.graph.fresh ∧ p.HasGroup u
  tuples : begun = true → ∀ v ∈ p.graph.oneVirtualTaskTuples, ∀ u, v.t = some u →
    u < p.graph.fresh ∧ p.HasGroup u

/-- What holds while `register_task` goes through the tuples of `t`, after `s.2` edges. -/
structure Walking (begun : Bool) (t : TaskId) (dom : Set TaskId) (s : Partition × Nat) :
    Prop extends Counted s.1 where
  fresh : s.1.graph.fresh = t + 1
  groups : ∀ u ∈ dom, s.1.HasGroup u
  table : ∀ a e, s.1.graph.addrTask a = some e → ∀ u ∈ e.tasks, u ∈ dom
  tuples : begun = true → ∀ v ∈ s.1.graph.oneVirtualTaskTuples, ∀ u, v.t = some u →
    u ∈ insert t dom
  unset : s.2 = 0 → s.1.groupId t = -1
  set : s.2 ≠ 0 → s.1.HasGroup t

theorem Counted.setGraph {p : Partition} (h : Counted p) {g : TaskDagGraph}
    (hroots : g.needSpawnTasks = p.graph.needSpawnTasks) : Counted { p with graph := g } :=
  ⟨h.classes, h.maxN, h.size, (congrArg List.length hroots).trans h.roots⟩

theorem Counted.le {p : Partition} (h : Counted p) : p.sepId ≤ 10240 := by
  obtain ⟨rep, hclasses⟩ := h.classes
  rw [← h.size, ← h.maxN]
  exact hclasses.fits

/-- The sets make room, or the next index is that of the end of the arrays. -/
theorem Counted.openSet {p : Partition} (h : Counted p) (t : TaskId) :
    (p.sepId < 10240 ∧ ∃ p', p.openSet t = some p' ∧ Counted p' ∧
      p'.graph = { p.graph with needSpawnTasks := p.graph.needSpawnTasks ++ [t] } ∧
      p'.sepId = p.sepId + 1 ∧ p'.groupId = Function.update p.groupId t (p.sepId : Int)) ∨
    (p.sepId = 10240 ∧ p.openSet t = none) := by
  obtain ⟨rep, hclasses⟩ := h.classes
  rcases Nat.lt_or_eq_of_le h.le with hlt | heq
  · have hfits : p.myDisjoinSet.mySize < p.myDisjoinSet.maxN := by
      rw [h.size, h.maxN]
      exact hlt
    obtain ⟨set, hmake, hsize, hmax, hclasses'⟩ := DisjoinSet.makeSet_spec hclasses hfits
    rw [h.size] at hmake hsize
    refine Or.inl ⟨hlt, _, by rw [Partition.openSet, hmake]; rfl, ?_, rfl, rfl, rfl⟩
    refine ⟨⟨_, hclasses'⟩, hmax.trans h.maxN, hsize, ?_⟩
    change (p.graph.needSpawnTasks ++ [t]).length = p.sepId + 1
    rw [List.length_append, List.length_singleton, h.roots]
  · refine Or.inr ⟨heq, ?_⟩
    have hfull : p.myDisjoinSet.makeSet p.sepId = none := by
      apply if_neg
      rw [h.maxN, heq]
      exact Nat.lt_irrefl _
    rw [Partition.openSet, hfull]
    rfl

section Walking

variable {begun : Bool} {t : TaskId} {dom : Set TaskId} {s : Partition × Nat}

/-- An edge unites two sets that have been made, or names one of them. -/
theorem Walking.unionSet (h : Walking begun t dom s) {src : TaskId} (hsrc : src ∈ dom)
    (g : TaskDagGraph) :
    ∃ set id, AutoPartition.unionSet src t { s.1 with graph := g } = some
        { s.1 with
          graph := g
          myDisjoinSet := set
          groupId := Function.update s.1.groupId t id } ∧
      (∃ rep, set.Classes rep) ∧ set.maxN = 10240 ∧ set.mySize = s.1.sepId ∧
      ∃ i < s.1.sepId, id = (i : Int) := by
  obtain ⟨x, hx, hxid⟩ := h.groups src hsrc
  by_cases hzero : s.2 = 0
  · refine ⟨s.1.myDisjoinSet, s.1.groupId src, ?_, h.classes, h.maxN, h.size, x, hx, hxid⟩
    unfold AutoPartition.unionSet
    rw [if_pos]
    change s.1.groupId t < 0
    rw [h.unset hzero]
    exact Int.negSucc_lt_zero 0
  · obtain ⟨y, hy, hyid⟩ := h.set hzero
    obtain ⟨rep, hclasses⟩ := h.classes
    obtain ⟨set, r, hunion, hsize, hmax, hr, -, hclasses'⟩ :=
      DisjoinSet.unionSet_spec hclasses (h.size.symm ▸ hx) (h.size.symm ▸ hy)
    refine ⟨set, r, ?_, ⟨_, hclasses'⟩, hmax.trans h.maxN, hsize.trans h.size, r, h.size ▸ hr,
      rfl⟩
    have hneg : ¬ s.1.groupId t < 0 := by lia
    unfold AutoPartition.unionSet
    rw [if_neg hneg]
    simp only [hxid, hyid, Int.toNat?, hunion, Option.bind_eq_bind, Option.bind_some]
    rfl

theorem Walking.addEdge (h : Walking begun t dom s) (hdom : t ∉ dom) {src : TaskSignificance}
    (hsrc : src.t ∈ dom) (nb : Bool) :
    ∃ p', addEdge t nb s.1 src = some p' ∧
      p'.graph = TaskDagGraph.addEdge t nb s.1.graph src ∧ Walking begun t dom (p', s.2 + 1) := by
  obtain ⟨set, id, hunion, hclasses, hmax, hsize, hid⟩ :=
    h.unionSet hsrc (TaskDagGraph.addEdge t nb s.1.graph src)
  refine ⟨_, hunion, rfl, ⟨hclasses, hmax, hsize, ?_⟩, ?_, ?_, ?_, ?_, ?_, ?_⟩
  · exact (congrArg List.length (addEdge_needSpawnTasks t nb s.1.graph src)).trans h.roots
  · exact (addEdge_fresh t nb s.1.graph src).trans h.fresh
  · intro u hu
    obtain ⟨i, hi, hold⟩ := h.groups u hu
    have hne : u ≠ t := fun heq => hdom (heq ▸ hu)
    exact ⟨i, hi, (Function.update_of_ne hne ..).trans hold⟩
  · intro a e he
    exact h.table a e ((congrFun (addEdge_addrTask t nb s.1.graph src) a).symm.trans he)
  · intro hbegun v hv
    exact h.tuples hbegun v (addEdge_tuples t nb s.1.graph src ▸ hv)
  · exact fun hzero => absurd hzero (Nat.succ_ne_zero _)
  · obtain ⟨i, hi, rfl⟩ := hid
    exact fun _ => ⟨i, hi, Function.update_self ..⟩

theorem Walking.kept (hdom : t ∉ dom) : Kept t dom (Walking begun t dom) where
  table := fun _ h => h.table
  tuples := by
    refine fun s a type nb h =>
      ⟨h.toCounted.setGraph rfl, h.fresh, h.groups, h.table, ?_, h.unset, h.set⟩
    intro hbegun v hv u hu
    rcases List.mem_append.mp hv with hv | hv
    · exact h.tuples hbegun v hv u hu
    · rw [List.mem_singleton.mp hv] at hu
      cases hu
      exact Set.mem_insert t dom
  edge := fun _ _ nb h hsrc => h.addEdge hdom hsrc nb

end Walking

/-! ## One call -/

section Indexed

variable {begun : Bool} {p : Partition}

theorem Indexed.registering (h : Indexed begun p) (junk : Junk) :
    Walking begun p.graph.fresh {u | u < p.graph.fresh ∧ p.HasGroup u}
      (p.registerStart junk, 0) where
  classes := h.classes
  maxN := h.maxN
  size := h.size
  roots := h.roots
  fresh := rfl
  groups := by
    rintro u ⟨hu, i, hi, hid⟩
    exact ⟨i, hi, (Function.update_of_ne (Nat.ne_of_lt hu) ..).trans hid⟩
  table := h.table
  tuples := fun hbegun v hv u hu =>
    Set.mem_insert_of_mem p.graph.fresh (h.tuples hbegun v hv u hu)
  unset := fun _ => Function.update_self ..
  set := fun hne => absurd rfl hne

/-- Behind the tuples, where the new task has its group. -/
theorem Walking.indexed {t : TaskId} {dom : Set TaskId} {s : Partition × Nat}
    (h : Walking begun t dom s) (hdom : ∀ u ∈ dom, u < t) {p' : Partition} (hp' : Counted p')
    {roots : List TaskId} (hgraph : p'.graph = { s.1.graph with needSpawnTasks := roots })
    (hgroups : ∀ u ∈ insert t dom, p'.HasGroup u) : Indexed begun p' := by
  have hfresh : p'.graph.fresh = t + 1 := by
    rw [hgraph]
    exact h.fresh
  have hlt : ∀ u ∈ insert t dom, u < p'.graph.fresh := by
    rw [hfresh]
    rintro u (rfl | hu)
    · exact Nat.lt_succ_self u
    · exact Nat.lt_succ_of_lt (hdom u hu)
  refine ⟨hp', fun a e he u hu => ?_, fun hbegun v hv u hu => ?_⟩
  · rw [hgraph] at he
    have hmem := Set.mem_insert_of_mem t (h.table a e he u hu)
    exact ⟨hlt u hmem, hgroups u hmem⟩
  · rw [hgraph] at hv
    have hmem := h.tuples hbegun v hv u hu
    exact ⟨hlt u hmem, hgroups u hmem⟩

/-- What a call does: it keeps the indices, or it registers a task without predecessors that
there is no room for. -/
def Partition.CallsAs (p : Partition) (begun : Bool) (c : Call) : Prop :=
  (∃ p', p.call c = some p' ∧ p'.graph = callGraph p.graph c ∧ Indexed (c.begun begun) p') ∨
  (p.call c = none ∧ 10240 < (callGraph p.graph c).needSpawnTasks.length)

theorem Indexed.registerTask (h : Indexed begun p) (spec : TaskSpec) :
    p.CallsAs begun (.build (.registerTask spec)) := by
  let dom : Set TaskId := {u | u < p.graph.fresh ∧ p.HasGroup u}
  have hdom : ∀ u ∈ dom, u < p.graph.fresh := fun u hu => hu.1
  have hnew : p.graph.fresh ∉ dom := fun hmem => Nat.lt_irrefl _ (hdom _ hmem)
  obtain ⟨s, hs, hgen, hgraph⟩ :=
    (Walking.kept hnew).taskGenerator spec (h.registering spec.junk)
  unfold Partition.CallsAs
  have hcall : p.call (.build (.registerTask spec)) =
      if s.2 = 0 then s.1.openSet p.graph.fresh else some s.1 := hgen
  have hplain : callGraph p.graph (.build (.registerTask spec)) = if s.2 = 0 then
      { s.1.graph with needSpawnTasks := s.1.graph.needSpawnTasks ++ [p.graph.fresh] }
      else s.1.graph := hgraph
  rw [hcall, hplain]
  by_cases hzero : s.2 = 0
  · rw [if_pos hzero, if_pos hzero]
    rcases hs.openSet p.graph.fresh with
      ⟨-, p', hopen, hp', hgraph', hid, hgroup⟩ | ⟨hfull, hopen⟩
    · refine Or.inl ⟨p', hopen, hgraph', hs.indexed hdom hp' hgraph' ?_⟩
      unfold Partition.HasGroup
      rw [hid, hgroup]
      rintro u (rfl | hu)
      · exact ⟨s.1.sepId, Nat.lt_succ_self _, Function.update_self ..⟩
      · obtain ⟨i, hi, hold⟩ := hs.groups u hu
        have hne : u ≠ p.graph.fresh := fun heq => hnew (heq ▸ hu)
        exact ⟨i, Nat.lt_succ_of_lt hi, (Function.update_of_ne hne ..).trans hold⟩
    · refine Or.inr ⟨hopen, ?_⟩
      change 10240 < (s.1.graph.needSpawnTasks ++ [p.graph.fresh]).length
      rw [List.length_append, List.length_singleton, hs.roots, hfull]
      omega
  · rw [if_neg hzero, if_neg hzero]
    refine Or.inl ⟨s.1, rfl, rfl, hs.indexed hdom hs.toCounted rfl ?_⟩
    rintro u (rfl | hu)
    · exact hs.set hzero
    · exact hs.groups u hu

/-- After a spawn the first set is the next one, and no task is known. -/
theorem indexed_reset (hmax : p.myDisjoinSet.maxN = 10240) : Indexed false p.reset where
  classes := ⟨id, .blank rfl rfl id⟩
  maxN := hmax
  size := rfl
  roots := rfl
  table := fun _ _ he => by cases he
  tuples := fun hbegun => by cases hbegun

theorem Indexed.call (h : Indexed begun p) {c : Call}
    (hc : c = .build .endSplitTask → begun = true) : p.CallsAs begun c := by
  cases c with
  | build b =>
      cases b with
      | registerTask spec => exact h.registerTask spec
      | beginSplitTask =>
          refine Or.inl ⟨_, rfl, rfl, h.toCounted.setGraph rfl, h.table, fun _ v hv => ?_⟩
          exact absurd hv List.not_mem_nil
      | beginSplitTaskNamed n =>
          refine Or.inl ⟨_, rfl, rfl, h.toCounted.setGraph rfl, h.table, fun _ v hv => ?_⟩
          exact absurd hv List.not_mem_nil
      | endSplitTask =>
          have htuples := h.tuples (hc rfl)
          refine Or.inl ⟨_, rfl, rfl, ?_⟩
          have htable := endSplitTask_table
            (S := {u | u < p.graph.fresh ∧ p.HasGroup u}) h.table htuples
          change Indexed begun { p with graph := p.graph.endSplitTask }
          rw [endSplitTask_eq]
          exact ⟨h.toCounted.setGraph rfl, htable, fun _ => htuples⟩
  | spawnAndWait graph => exact Or.inl ⟨_, rfl, rfl, indexed_reset h.maxN⟩
  | spawnAndWaitWithSeparation graph father =>
      exact Or.inl ⟨_, rfl, rfl, indexed_reset h.maxN⟩

end Indexed

/-! ## Runs -/

theorem fits_cons {g : TaskDagGraph} {c : Call} {calls : List Call}
    (hone : g.needSpawnTasks.length ≤ 10240) :
    Fits g (c :: calls) ↔ Fits (callGraph g c) calls := by
  constructor
  · intro h pre hpre
    exact h (c :: pre) ((List.prefix_cons_inj c).mpr hpre)
  · intro h pre hpre
    rcases List.prefix_cons_iff.mp hpre with rfl | ⟨rest, rfl, hrest⟩
    · exact hone
    · exact h rest hrest

/-- A run keeps the indices, or it comes to a task that there is no room for. -/
theorem Indexed.callAll {begun : Bool} {p : Partition} (h : Indexed begun p)
    {calls : List Call} (hcalls : LoopsBegun begun calls) :
    (Fits p.graph calls ∧ ∃ p', p.callAll calls = some p' ∧
      p'.graph = callGraphAll p.graph calls ∧ Counted p') ∨
    (¬ Fits p.graph calls ∧ p.callAll calls = none) := by
  induction calls generalizing begun p with
  | nil =>
      refine Or.inl ⟨fun pre hpre => ?_, p, rfl, rfl, h.toCounted⟩
      rw [List.prefix_nil.mp hpre]
      exact h.roots.trans_le h.le
  | cons c calls ih =>
      obtain ⟨hc, hrest⟩ := hcalls
      have hgraphs : callGraphAll p.graph (c :: calls) =
          callGraphAll (callGraph p.graph c) calls := rfl
      have hall : p.callAll (c :: calls) = (p.call c).bind fun p => p.callAll calls := rfl
      rw [fits_cons (h.roots.trans_le h.le), hgraphs, hall]
      rcases h.call hc with ⟨p', hone, hgraph, hp'⟩ | ⟨hnone, hover⟩
      · rw [hone, Option.bind_some, ← hgraph]
        exact ih hp' hrest
      · rw [hnone, Option.bind_none]
        refine Or.inr ⟨fun hfits => ?_, rfl⟩
        have hle := hfits [] List.nil_prefix
        exact Nat.not_lt.mpr hle hover

theorem Clear.indexed {p : Partition} (h : Clear p) : Indexed false p where
  classes := ⟨id, .blank h.count h.mySize id⟩
  maxN := h.maxN
  size := h.mySize.trans h.sepId.symm
  roots := by
    rw [h.graph.needSpawnTasks, h.sepId]
    rfl
  table := fun a e he => by
    rw [h.graph.addrTask] at he
    cases he
  tuples := fun hbegun => by cases hbegun

/-- No index is outside of the arrays if and only if, between two spawns, at most 10240 tasks
without predecessors are registered. -/
theorem partition_table_iff {p₀ : Partition} (hclear : Clear p₀) (calls : List Call)
    (hcalls : LoopsBegun false calls) :
    (∃ p, p₀.callAll calls = some p) ↔ Fits p₀.graph calls := by
  rcases hclear.indexed.callAll hcalls with ⟨hfits, p, hall, -⟩ | ⟨hover, hall⟩
  · exact ⟨fun _ => hfits, fun _ => ⟨p, hall⟩⟩
  · refine ⟨fun ⟨p, hp⟩ => ?_, fun hfits => absurd hfits hover⟩
    rw [hall] at hp
    cases hp

/-- Two loops, a spawn, and a task of the next graph. -/
theorem partition_table_iff_two : let calls : List Call := Example.calls.map .build ++
      [.spawnAndWait (TaskDagGraph.init 2), .build .beginSplitTask,
        .build (Example.task .OUT [8])]
    Fits Example.blank.graph calls := by
  intro calls
  have hcalls : LoopsBegun false calls := by
    simp [calls, LoopsBegun, Example.calls, Example.task, Call.begun]
  have hrun : (Example.blank.callAll calls).isSome = true := by decide
  exact (partition_table_iff Example.clear_blank calls hcalls).mp
    (Option.isSome_iff_exists.mp hrun)

/-! ## A loop of independent tasks -/

theorem callGraphAll_build (g : TaskDagGraph) (calls : List BuildCall) :
    callGraphAll g (calls.map .build) = g.buildAll calls := List.foldl_map

/-- Without a spawn it is the end of the run that counts. -/
theorem fits_build {g : TaskDagGraph} {calls : List BuildCall}
    (hend : (g.buildAll calls).needSpawnTasks.length ≤ 10240) : Fits g (calls.map .build) := by
  intro pre hpre
  rw [List.prefix_iff_eq_take.mp hpre, ← List.map_take, callGraphAll_build]
  apply (roots_length_buildAll _ (calls.drop pre.length)).trans
  have hwhole : (g.buildAll (calls.take pre.length)).buildAll (calls.drop pre.length) =
      g.buildAll calls := by
    unfold buildAll
    rw [← List.foldl_append, List.take_append_drop]
  rw [hwhole]
  exact hend

/-- Until the loop is ended, no task of it is the predecessor of another. -/
theorem buildAll_roots {g : TaskDagGraph} (htable : ∀ a, g.addrTask a = none)
    (specs : List TaskSpec) :
    (g.buildAll (specs.map .registerTask)).needSpawnTasks.length =
      g.needSpawnTasks.length + specs.length := by
  induction specs generalizing g with
  | nil => rfl
  | cons spec specs ih =>
      have hnone : attempts g.addrTask spec.accesses = [] := by
        unfold attempts
        simp only [htable, List.flatMap_eq_nil_iff, implies_true]
      have hnext : ∀ a, (g.taskGenerator spec).addrTask a = none := by
        rw [taskGenerator_addrTask]
        exact htable
      have hroots := taskGenerator_roots g spec
      rw [if_pos hnone] at hroots
      have hlater := ih hnext
      rw [hroots, List.length_append, List.length_singleton] at hlater
      rw [List.length_cons, ← Nat.add_assoc, Nat.add_right_comm, ← hlater]
      rfl

namespace Example

/-- A loop of `n` tasks. Each of them writes an address of its own. -/
def writers (n : Nat) : List BuildCall :=
  .beginSplitTask :: ((List.range n).map fun i => ⟨⟨false, 0⟩, fun _ _ => [],
    [⟨8 * (i + 1), .NORMAL, .OUT, NEIGHBOR_NONE, .INOUT_NONE⟩]⟩).map .registerTask

theorem loopsBegun_writers (n : Nat) : LoopsBegun false ((writers n).map .build) := by
  have hall : ∀ l : List TaskSpec, LoopsBegun true ((l.map .registerTask).map .build) := by
    intro l
    induction l with
    | nil => trivial
    | cons spec l ih => exact ⟨fun heq => (by cases heq), ih⟩
  exact ⟨fun heq => (by cases heq), hall _⟩

theorem writers_roots (n : Nat) :
    (blank.graph.buildAll (writers n)).needSpawnTasks.length = n := by
  have hroots := buildAll_roots (g := blank.graph.beginSplitTask) (fun _ => rfl)
    ((List.range n).map fun i => ⟨⟨false, 0⟩, fun _ _ => [],
      [⟨8 * (i + 1), .NORMAL, .OUT, NEIGHBOR_NONE, .INOUT_NONE⟩]⟩)
  rw [List.length_map, List.length_range] at hroots
  exact hroots.trans (Nat.zero_add n)

end Example

/-- 10240 independent tasks fill the arrays, and one more gets the index behind their end. -/
theorem partition_table_overflows :
    (∃ p, Example.blank.callAll ((Example.writers 10240).map .build) = some p ∧
      p.sepId = 10240 ∧ p.myDisjoinSet.maxN = 10240) ∧
    Example.blank.callAll ((Example.writers 10241).map .build) = none := by
  have hindexed := Example.clear_blank.indexed
  constructor
  · have hfits : Fits Example.blank.graph ((Example.writers 10240).map .build) :=
      fits_build (Example.writers_roots 10240).le
    rcases hindexed.callAll (Example.loopsBegun_writers 10240) with
      ⟨-, p, hall, hgraph, hp⟩ | ⟨hover, -⟩
    · rw [callGraphAll_build] at hgraph
      refine ⟨p, hall, ?_, hp.maxN⟩
      rw [← hp.roots, hgraph]
      exact Example.writers_roots 10240
    · exact absurd hfits hover
  · rcases hindexed.callAll (Example.loopsBegun_writers 10241) with ⟨hfits, -⟩ | ⟨-, hall⟩
    · have hle := hfits _ List.prefix_rfl
      rw [callGraphAll_build, Example.writers_roots] at hle
      omega
    · exact hall

end AutoPartition

end AceMesh
