import AceMesh.Keeping

/-!
# What is stored is freed

The stored graphs of a program stay as `_store_dag_info` has left them (`Reached.filed`), so
that `free_tasks` finds the marks on every object whatever has been run in between. Both cover
a graph with tasks completely. The end task of a graph without tasks is reached by neither
(`store_and_free_cover`); the run that follows deletes it (`end_task_is_left_out`).
-/

open AceMesh.TaskDagGraph AceMesh.Runtime

namespace AceMesh

theorem interval_inj {lo lo' e : TaskId} (hlt : lo < e)
    (h : interval lo e = interval lo' e) : lo = lo' := by
  have hmem : ∀ t, (lo ≤ t ∧ t < e) ↔ lo' ≤ t ∧ t < e := fun t => by
    rw [← mem_interval, ← mem_interval, h]
  have h₁ := (hmem lo).mp ⟨Nat.le_refl lo, hlt⟩
  have h₂ := (hmem lo').mpr ⟨Nat.le_refl lo', by lia⟩
  lia

theorem interval_ne_nil {lo hi : TaskId} : interval lo hi ≠ [] ↔ lo < hi := by
  refine ⟨fun hne => ?_, fun hlt => List.ne_nil_of_mem (mem_interval.mpr ⟨Nat.le_refl lo, hlt⟩)⟩
  obtain ⟨t, ht⟩ := List.exists_mem_of_ne_nil _ hne
  exact Nat.lt_of_le_of_lt (mem_interval.mp ht).1 (mem_interval.mp ht).2

theorem Webbed.sameShape {lo e : TaskId} {h h' : Heap} (hw : Webbed lo e h)
    (hs : ∀ t, t ≤ e → h' t = { h t with
      refCount := (h' t).refCount, deleted := (h' t).deleted }) : Webbed lo e h' where
  walkable :=
    { kind := fun t hlo hhi => by rw [hs t hhi]; exact hw.walkable.kind t hlo hhi
      succ := fun t hlo hhi => by
        rw [hs t (Nat.le_of_lt hhi)]; exact hw.walkable.succ t hlo hhi
      vertical := fun t hlo hhi => by
        rw [hs t (Nat.le_of_lt hhi)]; exact hw.walkable.vertical t hlo hhi }
  leaf := by
    rw [hs e (Nat.le_refl e)]
    exact hw.leaf

namespace Session

variable {m : Nat} {lo : Int → TaskId} {base : TaskId} {s s' : Session m} {a : Act m}

/-- The graph that `_store_dag_info` is called on. -/
def closed (s : Session m) : TaskDagGraph :=
  { s.graph.endConstructDag with
    reuse := { s.graph.reuse with
      dagReuseCnt := Function.update s.graph.reuse.dagReuseCnt s.graph.reuse.currDagNo (some 0) } }

/-- The call that stores a graph. -/
theorem Between.stores (h : Between lo base s) (hs : s.spawnAndWait = some s')
    (hkind : s.kind = .stored) :
    ∃ r, s.closed.storeDagInfoLog = some r ∧ r.2.Nodup ∧
      (∀ t, t ∈ r.2 ↔ base < s.graph.fresh ∧ base ≤ t ∧ t ≤ s.graph.fresh) ∧
      s.graph.endConstructDag.heap.SameButMarks r.1 ∧
      (∀ t ∈ r.2, (r.1 t).stored = true ∧ (r.1 t).reused = true ∧
        (r.1 t).backupRef = (r.1 t).refCount) ∧
      (∀ t, t ∉ r.2 → r.1 t = s.graph.endConstructDag.heap t) ∧
      s'.heap = r.1.incrementRefCount s.graph.fresh := by
  obtain ⟨r, hrun, hnodup, hmem, hsame, hframe, hall⟩ := h.looped.storeDagInfoLog
  have hlog : s.closed.storeDagInfoLog = some r := hrun
  refine ⟨r, hlog, hnodup, hmem, hsame, hall, hframe, ?_⟩
  obtain ⟨g, e, hg, hend, -, rfl⟩ := spawnAndWait_eq_some hs
  cases prepared_of_prepare hg with
  | resumed hreuse _ =>
      rw [kind, if_pos hreuse] at hkind
      cases hkind
  | stored heap _ _ hrun heq =>
      have hstore : s.closed.storeDagInfo = some { s.closed with heap := heap } :=
        congrArg (Option.map _) hrun
      have hfst := storeDagInfoLog_fst s.closed
      rw [hlog, hstore] at hfst
      have hheap : heap = r.1 := (Option.some.inj hfst).symm
      subst heq
      have hfresh : s.graph.fresh = e := Option.some.inj hend
      change heap.incrementRefCount e = _
      rw [← hfresh, hheap]
  | built hreuse hinit _ =>
      rw [kind, if_neg hreuse, if_neg hinit] at hkind
      cases hkind

/-! ## The marks stay -/

/-- The stored graphs are as `_store_dag_info` has left them, but for counters and lives. -/
def Filed (s : Session m) : Prop :=
  ∀ no inst lo, s.graph.reuse.dagInstanceMap no = some inst →
    storedTasks no s.calls = some (interval lo inst.endTask) → lo < inst.endTask →
      Webbed lo inst.endTask s.heap ∧
        ∀ t, lo ≤ t → t ≤ inst.endTask → (s.heap t).stored = true

theorem Filed.act (h : Filed s) (hinv : s.Inv) (hact : s.act a = some s') : Filed s' := by
  intro no inst lo hslot htasks hlt
  obtain ⟨hold, hsame⟩ | ⟨hstore, hkind, -, rfl, hnew⟩ :=
    (act_effect hact).instance hslot
  · rw [hsame] at htasks
    obtain ⟨hweb, hstored⟩ := h no inst lo hold htasks hlt
    have hshape := fun t (ht : t ≤ inst.endTask) => act_shape hinv hact hold ht
    refine ⟨hweb.sameShape hshape, fun t hlo hhi => ?_⟩
    rw [hshape t hhi]
    exact hstored t hlo hhi
  · obtain ⟨lo', base, hbetween, -, -⟩ := call_between hinv hstore
    obtain ⟨r, -, -, hmem, hmarks, hall, -, hheap⟩ :=
      hbetween.stores (call_spawnAndWait hstore) hkind
    rw [hnew, hbetween.since] at htasks
    have hinterval := Option.some.inj htasks
    have hbase : base < s.graph.fresh := by
      rw [← interval_ne_nil, hinterval]
      exact interval_ne_nil.mpr hlt
    obtain rfl := interval_inj hbase hinterval
    have hshape := r.1.sameShape_increment s.graph.fresh
    refine ⟨((hbetween.looped.webbed).same hmarks).sameShape fun t ht => ?_,
      fun t hlo hhi => ?_⟩
    · rw [hheap]
      exact hshape t
    · rw [hheap, hshape t]
      exact (hall t ((hmem t).mpr ⟨hlt, hlo, hhi⟩)).1

theorem Reached.filed (h : Reached (fun _ _ => True) s) : Filed s := by
  induction h with
  | start =>
      intro no inst lo hslot
      cases hslot
  | act h _ hact ih => exact ih.act h.inv hact

/-- What `free_tasks` finds. -/
theorem Between.stock (h : Between lo base s) (hfiled : Filed s) {l : List (Int × DagInstance)}
    (hnodup : (l.map (·.1)).Nodup)
    (hl : ∀ p, p ∈ l ↔ s.graph.reuse.dagInstanceMap p.1 = some p.2) :
    Stock lo l s.graph.fresh s.heap where
  nodup := hnodup
  range := fun p hp => by
    obtain ⟨hle, hlt, -⟩ := h.shelf.tasks p.1 p.2 ((hl p).mp hp)
    exact ⟨hle, Nat.lt_of_lt_of_le hlt h.looped.lo_le⟩
  stocked := fun p hp hlt => by
    have hslot := (hl p).mp hp
    obtain ⟨-, -, htasks⟩ := h.shelf.tasks p.1 p.2 hslot
    have hkept := h.shelf.kept p.1 p.2 hslot hlt
    obtain ⟨hweb, hstored⟩ := hfiled p.1 p.2 (lo p.1) hslot htasks hlt
    refine ⟨hweb, fun t ht => Finset.mem_Ico.mp ((hkept.roots t).mp ht).1, ?_, hstored⟩
    intro t htlo hthi hroot
    by_cases hend : t = p.2.endTask
    · -- the last task leads to the end task only
      subst hend
      refine ⟨p.2.endTask - 1, by lia, by lia, ?_⟩
      refine hkept.runnable.dag.sink_of_last _ (Finset.mem_Ico.mpr (by lia)) fun x hx hmem => ?_
      have hx := Finset.mem_Ico.mp hx
      have := hweb.falls (by lia) (by lia) (Task.mem_walked.mpr hmem)
      lia
    · by_contra hnone
      refine hroot ((hkept.roots t).mpr ⟨Finset.mem_Ico.mpr (by lia), ?_⟩)
      refine Finset.sum_eq_zero fun u hu => List.count_eq_zero.mpr fun hmem => hnone ?_
      have hu := Finset.mem_Ico.mp hu
      exact ⟨u, hu.1, hu.2, hmem⟩
  empty := fun p hp => h.shelf.empty p.1 p.2 ((hl p).mp hp)
  apart := fun p hp q hq => h.shelf.apart p.1 q.1 p.2 q.2 ((hl p).mp hp) ((hl q).mp hq)

/-- A task or the end task of a stored graph. -/
def OfStored (s : Session m) (t : TaskId) : Prop :=
  ∃ no inst tasks, s.graph.reuse.dagInstanceMap no = some inst ∧
    storedTasks no s.calls = some tasks ∧ (t ∈ tasks ∨ t = inst.endTask)

theorem Between.ofStored_iff (h : Between lo base s) {l : List (Int × DagInstance)}
    (hl : ∀ p, p ∈ l ↔ s.graph.reuse.dagInstanceMap p.1 = some p.2) {t : TaskId} :
    s.OfStored t ↔ ∃ p ∈ l, lo p.1 ≤ t ∧ t ≤ p.2.endTask := by
  constructor
  · rintro ⟨no, inst, tasks, hslot, htasks, ht⟩
    obtain ⟨hle, -, hstored⟩ := h.shelf.tasks no inst hslot
    obtain rfl := Option.some.inj (htasks.symm.trans hstored)
    refine ⟨(no, inst), (hl _).mpr hslot, ?_⟩
    rw [mem_interval] at ht
    dsimp only
    lia
  · rintro ⟨⟨no, inst⟩, hp, htlo, hthi⟩
    have hslot := (hl _).mp hp
    obtain ⟨-, -, hstored⟩ := h.shelf.tasks no inst hslot
    refine ⟨no, inst, _, hslot, hstored, ?_⟩
    rw [mem_interval]
    dsimp only at htlo hthi
    lia

/-- `_store_dag_info` comes to an end and walks the successors of an object once at most; it
marks every task of the graph and the end task if and only if the graph has a task. -/
theorem Between.stores_all (h : Between lo base s) (hs : s.spawnAndWait = some s')
    (hkind : s.kind = .stored) :
    ∃ r, s.closed.storeDagInfoLog = some r ∧
      s'.heap = r.1.incrementRefCount s.graph.fresh ∧ r.2.Nodup ∧
      (∀ t ∈ r.2, t ∈ tasksSince s.calls ∨ t = s.graph.fresh) ∧
      ((∀ t, t ∈ tasksSince s.calls ∨ t = s.graph.fresh → t ∈ r.2 ∧ (r.1 t).stored = true ∧
        (r.1 t).reused = true ∧ (r.1 t).backupRef = (r.1 t).refCount) ↔
        tasksSince s.calls ≠ []) := by
  have hle : base ≤ s.graph.fresh := h.looped.lo_le
  obtain ⟨r, hlog, hnodup, hmem, -, hall, -, hheap⟩ := h.stores hs hkind
  have hrange : ∀ t, t ∈ tasksSince s.calls ∨ t = s.graph.fresh ↔
      base ≤ t ∧ t ≤ s.graph.fresh := by
    intro t
    rw [h.since, mem_interval]
    lia
  have htask : tasksSince s.calls ≠ [] ↔ base < s.graph.fresh := by
    rw [h.since]
    exact interval_ne_nil
  refine ⟨r, hlog, hheap, hnodup, fun t ht => (hrange t).mpr ((hmem t).mp ht).2, ?_⟩
  rw [htask]
  constructor
  · intro hcover
    exact ((hmem _).mp (hcover s.graph.fresh (Or.inr rfl)).1).1
  · intro hlt t ht
    have hin := (hmem t).mpr ⟨hlt, (hrange t).mp ht⟩
    exact ⟨hin, hall t hin⟩

/-- `free_tasks` comes to an end and deletes objects of stored graphs only, each once and none
that has been deleted before; it deletes all of them if and only if every stored graph has a
task. -/
theorem Between.frees_all (h : Between lo base s) (hfiled : Filed s)
    {iterate : List TaskId → List TaskId} (hiterate : ∀ l, (iterate l).Perm l)
    {l : List (Int × DagInstance)} (hnodup : (l.map (·.1)).Nodup)
    (hl : ∀ p, p ∈ l ↔ s.graph.reuse.dagInstanceMap p.1 = some p.2) :
    ∃ g freed, s.graph.freeTasks iterate l = some (g, freed) ∧ freed.Nodup ∧
      (∀ t ∈ freed, s.OfStored t ∧ (s.heap t).deleted = false) ∧
      ((∀ t, s.OfStored t → t ∈ freed) ↔ ∀ no, storedTasks no s.calls ≠ some []) := by
  obtain ⟨g, freed, hrun, hfreed, hmem⟩ := (h.stock hfiled hnodup hl).freeTasks hiterate
  refine ⟨g, freed, hrun, hfreed, fun t ht => ?_, ?_⟩
  · obtain ⟨p, hp, hlt, htlo, hthi⟩ := (hmem t).mp ht
    refine ⟨(h.ofStored_iff hl).mpr ⟨p, hp, htlo, hthi⟩, ?_⟩
    exact (h.shelf.kept p.1 p.2 ((hl p).mp hp) hlt).alive t htlo hthi
  constructor
  · intro hcover no htasks
    cases hslot : s.graph.reuse.dagInstanceMap no with
    | none =>
        rw [h.shelf.missing no hslot] at htasks
        cases htasks
    | some inst =>
        obtain ⟨hle, -, hstored⟩ := h.shelf.tasks no inst hslot
        have heq : lo no = inst.endTask := by
          by_contra hne
          exact interval_ne_nil.mpr (show lo no < inst.endTask by lia)
            (Option.some.inj (hstored.symm.trans htasks))
        -- the end task lies in no other graph
        obtain ⟨p, hp, hlt, htlo, hthi⟩ := (hmem inst.endTask).mp
          (hcover inst.endTask ⟨no, inst, _, hslot, hstored, Or.inr rfl⟩)
        by_cases hno : no = p.1
        · subst hno
          obtain rfl := Option.some.inj (hslot.symm.trans ((hl p).mp hp))
          lia
        · have := h.shelf.apart no p.1 inst p.2 hslot ((hl p).mp hp) hno
          lia
  · intro hfull t ht
    obtain ⟨p, hp, htlo, hthi⟩ := (h.ofStored_iff hl).mp ht
    refine (hmem t).mpr ⟨p, hp, ?_, htlo, hthi⟩
    by_contra hge
    obtain ⟨hle, -, hstored⟩ := h.shelf.tasks p.1 p.2 ((hl p).mp hp)
    refine hfull p.1 ?_
    rw [hstored, show lo p.1 = p.2.endTask by lia, interval_self]

/-- Storing and freeing cover every graph that has a task, and exactly those. -/
theorem store_and_free_cover (h : Reached (fun _ _ => True) s) :
    (∀ s', s.act (.call .spawnAndWait) = some s' → s.kind = .stored →
      ∃ r, s.closed.storeDagInfoLog = some r ∧
        s'.heap = r.1.incrementRefCount s.graph.fresh ∧ r.2.Nodup ∧
        (∀ t ∈ r.2, t ∈ tasksSince s.calls ∨ t = s.graph.fresh) ∧
        ((∀ t, t ∈ tasksSince s.calls ∨ t = s.graph.fresh → t ∈ r.2 ∧ (r.1 t).stored = true ∧
          (r.1 t).reused = true ∧ (r.1 t).backupRef = (r.1 t).refCount) ↔
          tasksSince s.calls ≠ [])) ∧
    (s.runtime.main = .prog → ∀ iterate : List TaskId → List TaskId,
      (∀ l, (iterate l).Perm l) → ∀ l : List (Int × DagInstance), (l.map (·.1)).Nodup →
      (∀ p, p ∈ l ↔ s.graph.reuse.dagInstanceMap p.1 = some p.2) →
      ∃ g freed, s.graph.freeTasks iterate l = some (g, freed) ∧ freed.Nodup ∧
        (∀ t ∈ freed, s.OfStored t ∧ (s.heap t).deleted = false) ∧
        ((∀ t, s.OfStored t → t ∈ freed) ↔ ∀ no, storedTasks no s.calls ≠ some [])) := by
  constructor
  · intro s' hact hkind
    obtain ⟨lo, base, hbetween, -, -⟩ := call_between h.inv hact
    exact hbetween.stores_all (call_spawnAndWait hact) hkind
  · intro hmain iterate hiterate l hnodup hl
    obtain ⟨lo, base, hbetween⟩ := h.inv.between hmain
    exact hbetween.frees_all h.filed hiterate hnodup hl

namespace Example

/-- The map of a program that has stored the graph `1` only. -/
theorem mem_single {inst : DagInstance} {p : Int × DagInstance} :
    p ∈ [(1, inst)] ↔ Function.update (fun _ => none) 1 (some inst) p.1 = some p.2 := by
  obtain ⟨no, inst'⟩ := p
  rw [List.mem_singleton, Prod.mk.injEq, Function.update_apply]
  by_cases hno : no = 1
  · rw [if_pos hno, Option.some_inj]
    exact (and_iff_right hno).trans eq_comm
  · rw [if_neg hno]
    exact iff_of_false (fun h => hno h.1) (by simp)

end Example

/-- A graph with one task. -/
theorem store_and_free_cover_example : ∃ (s t : Session 1) (r : Heap × List TaskId)
    (g : TaskDagGraph) (freed : List TaskId), s.kind = .stored ∧
    s.closed.storeDagInfoLog = some r ∧ r.2.Nodup ∧
    (r.1 0).stored = true ∧ (r.1 1).stored = true ∧ t.runtime.main = .prog ∧
    t.graph.freeTasks id [(1, ⟨1, [0]⟩)] = some (g, freed) ∧ freed.Nodup ∧
    0 ∈ freed ∧ 1 ∈ freed := by
  obtain ⟨s, s', t, hs, hs', ht, hkind, hmain, hmap, hsince, hcalls⟩ : ∃ s s' t : Session 1,
      (start : Session 1).run (Example.announced 1) = some s ∧
      s.act (.call .spawnAndWait) = some s' ∧
      s'.run (Example.turns 13) = some t ∧ s.kind = .stored ∧ t.runtime.main = .prog ∧
      t.graph.reuse.dagInstanceMap = Function.update (fun _ => none) 1 (some ⟨1, [0]⟩) ∧
      tasksSince s.calls = [0] ∧
      t.calls = [.spawnAndWait 1 .stored, .task 0, .dagStart 1 [] [] false] :=
    ⟨_, _, _, rfl, rfl, rfl, by decide, by decide, rfl, by decide, rfl⟩
  have hreached : Reached (fun _ _ => True) s := Reached.start.run _ hs
  obtain ⟨r, hlog, -, hnodup, -, hstore⟩ := (store_and_free_cover hreached).1 s' hs' hkind
  have hstore := hstore.mpr (by simp [hsince])
  obtain ⟨g, freed, hrun, hfreed, -, hfree⟩ :=
    (store_and_free_cover ((hreached.act trivial hs').run _ ht)).2 hmain id (fun _ => .rfl)
      [(1, ⟨1, [0]⟩)] (by simp) fun p => by rw [hmap]; exact Example.mem_single
  have hfree := hfree.mpr fun no => by
    rw [hcalls]
    change (if (1 : Int) = no then some [0] else none) ≠ _
    split <;> simp
  have htasks : storedTasks 1 t.calls = some [0] := by rw [hcalls]; rfl
  have hslot : t.graph.reuse.dagInstanceMap 1 = some ⟨1, [0]⟩ := by rw [hmap]; rfl
  refine ⟨s, t, r, g, freed, hkind, hlog, hnodup, (hstore 0 (by simp [hsince])).2.1,
    (hstore 1 (Or.inr ?_)).2.1, hmain, hrun, hfreed, hfree 0 ⟨1, _, _, hslot, htasks, by simp⟩,
    hfree 1 ⟨1, _, _, hslot, htasks, Or.inr rfl⟩⟩
  obtain rfl := Option.some.inj hs
  rfl

/-- The end task of a graph without a task gets no mark. Its one run deletes it, and
`free_tasks`, which still has it in the map, does not. -/
theorem end_task_is_left_out : ∃ (s s' t : Session 1) (r : Heap × List TaskId)
    (g : TaskDagGraph), Reached (fun _ _ => True) s ∧
    s.act (.call .spawnAndWait) = some s' ∧ s.kind = .stored ∧ s'.graph.endTask = some 0 ∧
    s.closed.storeDagInfoLog = some r ∧ (r.1 0).stored = false ∧ (r.1 0).reused = false ∧
    Later s' t ∧ t.runtime.main = .prog ∧
    t.graph.reuse.dagInstanceMap = Function.update (fun _ => none) 1 (some ⟨0, []⟩) ∧
    (t.heap 0).deleted = true ∧ t.graph.freeTasks id [(1, ⟨0, []⟩)] = some (g, []) := by
  obtain ⟨s, s', t, r, g, hs, hs', ht, hrest⟩ : ∃ (s s' t : Session 1) (r : Heap × List TaskId)
      (g : TaskDagGraph), (start : Session 1).run (Example.announced 0) = some s ∧
      s.act (.call .spawnAndWait) = some s' ∧
      s'.run (Example.turns 4) = some t ∧ s.kind = .stored ∧ s'.graph.endTask = some 0 ∧
      s.closed.storeDagInfoLog = some r ∧ (r.1 0).stored = false ∧ (r.1 0).reused = false ∧
      t.runtime.main = .prog ∧
      t.graph.reuse.dagInstanceMap = Function.update (fun _ => none) 1 (some ⟨0, []⟩) ∧
      (t.heap 0).deleted = true ∧ t.graph.freeTasks id [(1, ⟨0, []⟩)] = some (g, []) :=
    ⟨_, _, _, _, _, rfl, rfl, rfl, by decide, rfl, rfl, rfl, rfl, by decide, rfl, by decide, rfl⟩
  obtain ⟨hkind, hend, hlog, hstored, hreused, hmain, hmap, hdeleted, hfree⟩ := hrest
  exact ⟨s, s', t, r, g, Reached.start.run _ hs, hs', hkind, hend, hlog, hstored, hreused,
    later_of_run ht, hmain, hmap, hdeleted, hfree⟩

end Session

end AceMesh
