import AceMesh.Bookkeeping

/-!
# Closing the graph

`end_construct_dag` makes the end task and hangs it under every end task by
`add_end_successor`, which overwrites the vertical slot without a look. That no edge is lost
there rests on `end_tasks` naming only tasks without an edge (`Book.edges`).

`Bookkept` and `ClosedBy` say in the words of the graph what holds before and after the
closing; `bookkeeping` is the statement about every sequence of construction calls.
-/

namespace AceMesh

open TaskDagGraph Relation

/-! ## One vertical edge for each end task -/

theorem addEndSuccessor_apply (h : Heap) {t e : TaskId} (hne : t ≠ e) (u : TaskId) :
    h.addEndSuccessor t e u =
      if u = t then { h t with verticalTask := some e }
      else if u = e then { h e with refCount := (h e).refCount + 1 } else h u := by
  unfold Heap.addEndSuccessor Heap.incrementRefCount Heap.assignVertical
  by_cases hu : u = e
  · subst hu
    rw [Heap.modify_self, Heap.modify_of_ne h (Ne.symm hne), if_neg (Ne.symm hne), if_pos rfl]
  · rw [Heap.modify_of_ne _ hu, Heap.modify_apply, if_neg hu]
    split
    · rename_i hut; rw [hut]
    · rfl

theorem foldl_addEndSuccessor (h : Heap) {e : TaskId} {ts : List TaskId} (hnd : ts.Nodup)
    (he : e ∉ ts) (u : TaskId) :
    (ts.foldl (fun h t => h.addEndSuccessor t e) h) u =
      if u ∈ ts then { h u with verticalTask := some e }
      else if u = e then { h e with refCount := (h e).refCount + ts.length } else h u := by
  induction ts generalizing h with
  | nil =>
      by_cases hu : u = e
      · subst hu; simp
      · simp [hu]
  | cons t ts ih =>
      obtain ⟨hte, he⟩ := not_or.mp (fun hm => he (List.mem_cons.mpr hm))
      obtain ⟨ht, hnd⟩ := List.nodup_cons.mp hnd
      rw [List.foldl_cons, ih _ hnd he]
      simp only [addEndSuccessor_apply h (Ne.symm hte), List.mem_cons, if_neg hte,
        if_true, List.length_cons, Int.natCast_add, Int.natCast_one]
      by_cases hut : u = t
      · subst hut
        simp [ht, Ne.symm hte]
      · by_cases hue : u = e
        · subst hue
          simp only [he, hut, or_self, if_false, if_true]
          rw [Int.add_assoc, Int.add_comm 1]
        · simp [hut, hue]

/-! ## The closed graph -/

@[simp] theorem endConstructDag_fresh (g : TaskDagGraph) :
    g.endConstructDag.fresh = g.fresh + 1 := rfl

@[simp] theorem endConstructDag_endTask (g : TaskDagGraph) :
    g.endConstructDag.endTask = some g.fresh := rfl

@[simp] theorem endConstructDag_needSpawnTasks (g : TaskDagGraph) :
    g.endConstructDag.needSpawnTasks = g.needSpawnTasks := rfl

@[simp] theorem endConstructDag_reuse (g : TaskDagGraph) :
    g.endConstructDag.reuse = g.reuse := rfl

/-- All that closing does to the heap, if the end tasks are distinct older objects. -/
theorem endConstructDag_apply {g : TaskDagGraph} (hnd : g.endTasks.Nodup)
    (hnot : g.fresh ∉ g.endTasks) (u : TaskId) :
    g.endConstructDag.heap u =
      if u ∈ g.endTasks then { g.heap u with verticalTask := some g.fresh }
      else if u = g.fresh then { Task.newEmpty with refCount := g.endTasks.length }
      else g.heap u := by
  have halloc : ∀ u, u ≠ g.fresh → (g.alloc Task.newEmpty).heap u = g.heap u :=
    fun u hu => Heap.modify_of_ne g.heap hu fun _ => Task.newEmpty
  have hnew : (g.alloc Task.newEmpty).heap g.fresh = Task.newEmpty :=
    Heap.modify_self g.heap g.fresh fun _ => Task.newEmpty
  change (g.endTasks.foldl (fun h t => h.addEndSuccessor t g.fresh)
    (g.alloc Task.newEmpty).heap) u = _
  rw [foldl_addEndSuccessor _ hnd hnot]
  split
  · rename_i hu
    rw [halloc u fun hf => hnot (hf ▸ hu)]
  · split
    · rw [hnew]
      simp [Task.newEmpty, Task.newAceMesh]
    · rename_i hu
      exact halloc u hu

section Closed

variable {lo : TaskId} {g : TaskDagGraph} (hb : Book lo g)
include hb

theorem Book.endConstructDag_heap (u : TaskId) :
    g.endConstructDag.heap u =
      if u ∈ g.endTasks then { g.heap u with verticalTask := some g.fresh }
      else if u = g.fresh then { Task.newEmpty with refCount := g.endTasks.length }
      else g.heap u := by
  have hnot : g.fresh ∉ g.endTasks := fun hm => by
    have := ((hb.edges.mem_ends _).mp hm).1
    lia
  exact endConstructDag_apply hb.edges.ends_nodup hnot u

theorem Book.endConstructDag_outs (u : TaskId) (hlo : lo ≤ u) (hhi : u < g.fresh) :
    (g.endConstructDag.heap u).outs =
      if (g.heap u).outs = [] then [g.fresh] else (g.heap u).outs := by
  rw [hb.endConstructDag_heap]
  have hiff : u ∈ g.endTasks ↔ (g.heap u).outs = [] := by
    rw [hb.edges.mem_ends]
    exact and_iff_right ⟨hlo, hhi⟩
  by_cases hu : (g.heap u).outs = []
  · rw [if_pos (hiff.mpr hu), if_pos hu]
    simp [Task.outs, (Task.outs_eq_nil.mp hu).1]
  · have hne : u ≠ g.fresh := by lia
    rw [if_neg (fun h => hu (hiff.mp h)), if_neg hne, if_neg hu]

theorem Book.endConstructDag_new :
    g.endConstructDag.heap g.fresh =
      { Task.newEmpty with refCount := g.endTasks.length } := by
  have hnot : g.fresh ∉ g.endTasks := fun hm => by
    have := ((hb.edges.mem_ends _).mp hm).1
    lia
  rw [hb.endConstructDag_heap, if_neg hnot, if_pos rfl]

theorem Book.endConstructDag_refCount (u : TaskId) (hhi : u < g.fresh) :
    (g.endConstructDag.heap u).refCount = (g.heap u).refCount := by
  have hne : u ≠ g.fresh := by lia
  rw [hb.endConstructDag_heap, if_neg hne]
  split <;> rfl

end Closed

/-! ## What holds before and after -/

/-- What the lists and counters say about the edges between the given tasks. -/
structure Bookkept (tasks : Finset TaskId) (g : TaskDagGraph) : Prop where
  nodup : ∀ u ∈ tasks, ((g.heap u).successorTasks ++ (g.heap u).verticalTask.toList).Nodup
  inside : ∀ u ∈ tasks, ∀ t, HeapEdge g.heap u t → t ∈ tasks
  refCount : ∀ t ∈ tasks, (g.heap t).refCount =
    ({u ∈ tasks | t ∈ (g.heap u).successorTasks ∨ (g.heap u).verticalTask = some t}).card
  roots_nodup : g.needSpawnTasks.Nodup
  roots : ∀ t, t ∈ g.needSpawnTasks ↔ t ∈ tasks ∧ ∀ u ∈ tasks, ¬ HeapEdge g.heap u t
  ends_nodup : g.endTasks.Nodup
  ends : ∀ t, t ∈ g.endTasks ↔ t ∈ tasks ∧ ∀ u, ¬ HeapEdge g.heap t u

/-- What closing the graph `g` to `g'` adds. -/
structure ClosedBy (tasks : Finset TaskId) (g g' : TaskDagGraph) (e : TaskId) : Prop where
  endTask : g'.endTask = some e ∧ e ∉ tasks
  refCount : (g'.heap e).refCount = g.endTasks.length
  counts : ∀ t ∈ tasks, (g'.heap t).refCount = (g.heap t).refCount
  kept : ∀ u ∈ tasks, ∀ t, HeapEdge g.heap u t → HeapEdge g'.heap u t
  added : ∀ u ∈ tasks, ∀ t, HeapEdge g'.heap u t →
    HeapEdge g.heap u t ∨ (u ∈ g.endTasks ∧ t = e)
  nodup : ∀ u ∈ tasks, ((g'.heap u).successorTasks ++ (g'.heap u).verticalTask.toList).Nodup
  reach : ∀ u ∈ tasks, TransGen (HeapEdge g'.heap) u e

theorem Book.bookkept {lo : TaskId} {g : TaskDagGraph} (hb : Book lo g) :
    Bookkept (Finset.Ico lo g.fresh) g where
  nodup := fun u hu => hb.edges.nodup u (Finset.mem_Ico.mp hu).1 (Finset.mem_Ico.mp hu).2
  inside := fun u hu t ht => by
    have hu := Finset.mem_Ico.mp hu
    have := hb.edges.forward u hu.1 hu.2 t ht
    exact Finset.mem_Ico.mpr ⟨by lia, this.2⟩
  refCount := fun t ht => by
    rw [hb.edges.count t (Finset.mem_Ico.mp ht).1 (Finset.mem_Ico.mp ht).2, predecessors]
    simp only [Task.mem_outs]
  roots_nodup := hb.roots_nodup
  roots := fun t => by simp [hb.mem_roots, HeapEdge]
  ends_nodup := hb.edges.ends_nodup
  ends := fun t => by simp [hb.edges.mem_ends, HeapEdge, List.eq_nil_iff_forall_not_mem]

/-- Every chain of edges leads to the end task: edges lead to newer tasks, and a task
without a newer one under it is an end task. -/
theorem Book.reach_endTask {lo : TaskId} {g : TaskDagGraph} (hb : Book lo g)
    (u : TaskId) (hlo : lo ≤ u) (hhi : u < g.fresh) :
    TransGen (HeapEdge g.endConstructDag.heap) u g.fresh := by
  induction hd : g.fresh - u using Nat.strong_induction_on generalizing u with
  | _ d ih =>
      have houts := hb.endConstructDag_outs u hlo hhi
      cases hl : (g.heap u).outs with
      | nil =>
          rw [if_pos hl] at houts
          exact TransGen.single (by simp [HeapEdge, houts])
      | cons t ts =>
          have hmem : t ∈ (g.heap u).outs := hl ▸ List.mem_cons_self
          have ht := hb.edges.forward u hlo hhi t hmem
          rw [if_neg (by simp [hl])] at houts
          have hedge : HeapEdge g.endConstructDag.heap u t := by
            rw [HeapEdge, houts]; exact hmem
          exact TransGen.head hedge (ih (g.fresh - t) (by lia) t (by lia) ht.2 rfl)

theorem Book.closedBy {lo : TaskId} {g : TaskDagGraph} (hb : Book lo g) :
    ClosedBy (Finset.Ico lo g.fresh) g g.endConstructDag g.fresh where
  endTask := ⟨rfl, by simp⟩
  refCount := by rw [hb.endConstructDag_new]
  counts := fun t ht => hb.endConstructDag_refCount t (Finset.mem_Ico.mp ht).2
  kept := fun u hu t ht => by
    obtain ⟨hlo, hhi⟩ := Finset.mem_Ico.mp hu
    have hne : (g.heap u).outs ≠ [] := List.ne_nil_of_mem ht
    rw [HeapEdge, hb.endConstructDag_outs u hlo hhi, if_neg hne]
    exact ht
  added := fun u hu t ht => by
    obtain ⟨hlo, hhi⟩ := Finset.mem_Ico.mp hu
    rw [HeapEdge, hb.endConstructDag_outs u hlo hhi] at ht
    split at ht
    · rename_i hnil
      exact Or.inr ⟨(hb.edges.mem_ends u).mpr ⟨⟨hlo, hhi⟩, hnil⟩, List.mem_singleton.mp ht⟩
    · exact Or.inl ht
  nodup := fun u hu => by
    obtain ⟨hlo, hhi⟩ := Finset.mem_Ico.mp hu
    change (g.endConstructDag.heap u).outs.Nodup
    rw [hb.endConstructDag_outs u hlo hhi]
    split
    · exact List.nodup_singleton _
    · exact hb.edges.nodup u hlo hhi
  reach := fun u hu => by
    obtain ⟨hlo, hhi⟩ := Finset.mem_Ico.mp hu
    exact hb.reach_endTask u hlo hhi

/-! ## Every sequence of calls -/

/-- No task of a graph under construction: the state of `init` and of every
`reset_task_graph` that a `begin_split_task` follows. -/
structure Blank (g : TaskDagGraph) : Prop where
  addrTask : ∀ a, g.addrTask a = none
  tuples : g.oneVirtualTaskTuples = []
  needSpawnTasks : g.needSpawnTasks = []
  endTasks : g.endTasks = []

theorem Blank.book {g : TaskDagGraph} (hg : Blank g) : Book g.fresh g :=
  Book.empty hg.addrTask hg.tuples hg.needSpawnTasks hg.endTasks

theorem blank_init (threadNum : Nat) : Blank (TaskDagGraph.init threadNum) :=
  ⟨fun _ => rfl, rfl, rfl, rfl⟩

theorem blank_resetTaskGraph (g : TaskDagGraph) : Blank g.resetTaskGraph.beginSplitTask :=
  ⟨fun _ => rfl, rfl, rfl, rfl⟩

/-- Counters, roots and end tasks describe the edges after every sequence of construction
calls, and closing the graph keeps them and leads everything to the end task. -/
theorem bookkeeping {g₀ : TaskDagGraph} (hg₀ : Blank g₀) (calls : List BuildCall) :
    let g := g₀.buildAll calls
    let tasks := Finset.Ico g₀.fresh g.fresh
    Bookkept tasks g ∧ ClosedBy tasks g g.endConstructDag g.fresh := by
  have hb : Book g₀.fresh (g₀.buildAll calls) := hg₀.book.buildAll calls
  exact ⟨hb.bookkept, hb.closedBy⟩

/-- Two loops over one address: two readers, then a writer. -/
theorem bookkeeping_init :
    let a : AddrTuple := ⟨8, .NORMAL, .IN, NEIGHBOR_NONE, .INOUT_NONE⟩
    let reader : BuildCall := .registerTask ⟨⟨true, 5⟩, fun _ _ => [], [a]⟩
    let writer : BuildCall := .registerTask ⟨⟨true, 5⟩, fun _ _ => [], [{ a with type := .OUT }]⟩
    let calls := [.beginSplitTask, reader, reader, .endSplitTask,
      .beginSplitTask, writer, .endSplitTask]
    let g := (TaskDagGraph.init 4).buildAll calls
    let tasks := Finset.Ico 0 g.fresh
    g.endTasks = [2] ∧ Bookkept tasks g ∧
      ClosedBy tasks g g.endConstructDag g.fresh :=
  ⟨by decide, bookkeeping (blank_init 4) _⟩

end AceMesh
