import AceMesh.Session

/-!
# What holds between the calls

Tasks are numbered in the order of their registration, so every graph is an interval: the
stored graphs lie below the one under construction and apart from each other (`Shelf`).
Between two calls no task is on its way and every stored graph has its counters back
(`Between`); during `spawn_and_wait` this is so for all but the running one (`During`).

A graph without a task has an end task that nothing marks as reused, stored or not. Its run does
no more than let the main thread wait (`Hollow`) and delete the end task.
-/

open AceMesh.TaskDagGraph AceMesh.Runtime

namespace AceMesh

/-! ## Building changes nothing below -/

/-- Objects of other graphs may change. -/
theorem Book.setHeap {lo : TaskId} {g : TaskDagGraph} (hb : Book lo g) {h : Heap}
    (heq : ∀ t, lo ≤ t → t < g.fresh → h t = g.heap t) : Book lo { g with heap := h } where
  edges := hb.edges.congr (fun u hlo hhi => congrArg Task.outs (heq u hlo hhi))
    (fun u hlo hhi => congrArg Task.refCount (heq u hlo hhi))
  lo_le := hb.lo_le
  table := hb.table
  tuples := hb.tuples
  roots_nodup := hb.roots_nodup
  mem_roots := fun t => by
    refine (hb.mem_roots t).trans (and_congr_right fun _ => ?_)
    refine forall_congr' fun u => forall_congr' fun hlo => forall_congr' fun hhi => ?_
    rw [← heq u hlo hhi]
  kind := fun t hlo hhi => by
    show (h t).isAceMesh = true ∧ (h t).stored = false ∧ (h t).deleted = false
    rw [heq t hlo hhi]
    exact hb.kind t hlo hhi

theorem taskGenerator_below {lo : TaskId} {g : TaskDagGraph} (hb : Book lo g) (spec : TaskSpec)
    {t : TaskId} (ht : t < lo) : (g.taskGenerator spec).heap t = g.heap t := by
  have hle := hb.lo_le
  rw [taskGenerator, registerTask_eq]
  show ((addEdges g.fresh _ (attempts g.addrTask spec.accesses)).heap t) = _
  rw [frame_addEdges, registerStart_old g spec.junk (by lia)]
  · intro p hp
    have := hb.attempts_lt hp
    lia
  · lia

theorem taskGenerator_affinityId (g : TaskDagGraph) (spec : TaskSpec) (t : TaskId) :
    ((g.taskGenerator spec).heap t).affinityId =
      if t = g.fresh then (g.myAffinity.id : Int) else (g.heap t).affinityId := by
  rw [taskGenerator, registerTask_eq]
  have hattrs := attrs_addEdges g.fresh
    ((g.alloc (Task.newAceMesh spec.junk)).registerStart g.fresh)
    (attempts g.addrTask spec.accesses) t
  have haff : ((addEdges g.fresh ((g.alloc (Task.newAceMesh spec.junk)).registerStart g.fresh)
      (attempts g.addrTask spec.accesses)).heap t).affinityId =
      (((g.alloc (Task.newAceMesh spec.junk)).registerStart g.fresh).heap t).affinityId :=
    congrArg (fun a => a.2.2.2.2.1) hattrs
  refine haff.trans ?_
  by_cases ht : t = g.fresh
  · rw [if_pos ht, ht, registerStart_new]
    rfl
  · rw [if_neg ht, registerStart_old g spec.junk ht]

theorem taskGenerator_myAffinity (g : TaskDagGraph) (spec : TaskSpec) :
    (g.taskGenerator spec).myAffinity = g.myAffinity.getAffinityId.2 := by
  rw [taskGenerator, registerTask_eq]
  exact addEdges_field TaskDagGraph.myAffinity g.fresh (fun _ _ _ => by rw [addEdge_eq]) _ _

theorem taskGenerator_reuse (g : TaskDagGraph) (spec : TaskSpec) :
    (g.taskGenerator spec).reuse = g.reuse := by
  rw [taskGenerator, registerTask_eq]
  exact addEdges_reuse g.fresh _ _

/-! ## Graphs as intervals -/

/-- The tasks from `lo` to `hi`, newest first. -/
def interval (lo hi : TaskId) : List TaskId := (List.range' lo (hi - lo)).reverse

theorem mem_interval {lo hi t : TaskId} : t ∈ interval lo hi ↔ lo ≤ t ∧ t < hi := by
  unfold interval
  rw [List.mem_reverse, List.mem_range'_1]
  lia

theorem interval_self (lo : TaskId) : interval lo lo = [] := by
  simp [interval]

theorem interval_succ {lo hi : TaskId} (h : lo ≤ hi) :
    interval lo (hi + 1) = hi :: interval lo hi := by
  unfold interval
  rw [show hi + 1 - lo = (hi - lo) + 1 by lia, List.range'_concat, List.reverse_append]
  simp only [List.reverse_cons, List.reverse_nil, List.nil_append, List.singleton_append]
  rw [show lo + 1 * (hi - lo) = hi by lia]

/-- The stored graphs: the one under number `no` reaches from `lo no` to its end task, all
below `base`. -/
structure Shelf (n : Nat) (lo : Int → TaskId) (base : TaskId) (g : TaskDagGraph)
    (calls : List Call) : Prop where
  missing : ∀ no, g.reuse.dagInstanceMap no = none → storedTasks no calls = none
  tasks : ∀ no inst, g.reuse.dagInstanceMap no = some inst →
    lo no ≤ inst.endTask ∧ inst.endTask < base ∧
      storedTasks no calls = some (interval (lo no) inst.endTask)
  kept : ∀ no inst, g.reuse.dagInstanceMap no = some inst → lo no < inst.endTask →
    Kept n (lo no) inst.endTask inst.needSpawnTasks g.heap
  empty : ∀ no inst, g.reuse.dagInstanceMap no = some inst → lo no = inst.endTask →
    inst.needSpawnTasks = []
  apart : ∀ no no' inst inst', g.reuse.dagInstanceMap no = some inst →
    g.reuse.dagInstanceMap no' = some inst' → no ≠ no' →
    inst.endTask < lo no' ∨ inst'.endTask < lo no

namespace Shelf

variable {n : Nat} {lo : Int → TaskId} {base base' : TaskId} {g g' : TaskDagGraph}
  {calls calls' : List Call}

/-- The stored graphs have not changed. -/
theorem change (h : Shelf n lo base g calls)
    (hmap : g'.reuse.dagInstanceMap = g.reuse.dagInstanceMap)
    (hcalls : ∀ no, storedTasks no calls' = storedTasks no calls) (hbase : base ≤ base')
    (hkept : ∀ no inst, g.reuse.dagInstanceMap no = some inst → lo no < inst.endTask →
      Kept n (lo no) inst.endTask inst.needSpawnTasks g'.heap) :
    Shelf n lo base' g' calls' where
  missing := fun no hno => by rw [hcalls]; exact h.missing no (hmap ▸ hno)
  tasks := fun no inst hno => by
    obtain ⟨hle, hlt, htasks⟩ := h.tasks no inst (hmap ▸ hno)
    rw [hcalls]
    exact ⟨hle, Nat.lt_of_lt_of_le hlt hbase, htasks⟩
  kept := fun no inst hno => hkept no inst (hmap ▸ hno)
  empty := fun no inst hno => h.empty no inst (hmap ▸ hno)
  apart := fun no no' inst inst' hno hno' =>
    h.apart no no' inst inst' (hmap ▸ hno) (hmap ▸ hno')

/-- What a map with one more graph in it holds. -/
theorem stored_cases {no : Int} {inst : DagInstance}
    (hmap : g'.reuse.dagInstanceMap = Function.update g.reuse.dagInstanceMap no (some inst))
    {no' : Int} {inst' : DagInstance} (hsome : g'.reuse.dagInstanceMap no' = some inst') :
    no' = no ∧ inst' = inst ∨ no' ≠ no ∧ g.reuse.dagInstanceMap no' = some inst' := by
  rw [hmap] at hsome
  by_cases hno : no' = no
  · subst hno
    rw [Function.update_self] at hsome
    exact Or.inl ⟨rfl, (Option.some.inj hsome).symm⟩
  · rw [Function.update_of_ne hno] at hsome
    exact Or.inr ⟨hno, hsome⟩

/-- A graph is put on the shelf under a number, above the others. -/
theorem insert (h : Shelf n lo base' g calls) {no : Int} {inst : DagInstance}
    (hmap : g'.reuse.dagInstanceMap = Function.update g.reuse.dagInstanceMap no (some inst))
    (hheap : g'.heap = g.heap) (hle : base ≤ inst.endTask) (hlt : inst.endTask < base')
    (hbelow : ∀ no' inst', g.reuse.dagInstanceMap no' = some inst' → inst'.endTask < base)
    (hcalls : ∀ no', storedTasks no' calls' =
      if no = no' then some (interval base inst.endTask) else storedTasks no' calls)
    (hkept : base < inst.endTask → Kept n base inst.endTask inst.needSpawnTasks g.heap)
    (hempty : base = inst.endTask → inst.needSpawnTasks = []) :
    Shelf n (Function.update lo no base) base' g' calls' := by
  have hloold : ∀ {no'}, no' ≠ no → Function.update lo no base no' = lo no' :=
    fun hne => Function.update_of_ne hne ..
  constructor
  case missing =>
    intro no' hnone
    rw [hmap] at hnone
    by_cases hne : no' = no
    · rw [hne, Function.update_self] at hnone
      cases hnone
    · rw [Function.update_of_ne hne] at hnone
      rw [hcalls, if_neg (Ne.symm hne)]
      exact h.missing no' hnone
  case tasks =>
    intro no' inst' hsome
    obtain ⟨rfl, rfl⟩ | ⟨hne, hold⟩ := stored_cases hmap hsome
    · rw [Function.update_self, hcalls, if_pos rfl]
      exact ⟨hle, hlt, rfl⟩
    · rw [hloold hne, hcalls, if_neg (Ne.symm hne)]
      exact h.tasks no' inst' hold
  case kept =>
    intro no' inst' hsome hlt'
    rw [hheap]
    obtain ⟨rfl, rfl⟩ | ⟨hne, hold⟩ := stored_cases hmap hsome
    · rw [Function.update_self] at hlt' ⊢
      exact hkept hlt'
    · rw [hloold hne] at hlt' ⊢
      exact h.kept no' inst' hold hlt'
  case empty =>
    intro no' inst' hsome hemp
    obtain ⟨rfl, rfl⟩ | ⟨hne, hold⟩ := stored_cases hmap hsome
    · rw [Function.update_self] at hemp
      exact hempty hemp
    · rw [hloold hne] at hemp
      exact h.empty no' inst' hold hemp
  case apart =>
    intro no₁ no₂ inst₁ inst₂ h₁ h₂ hne
    obtain ⟨rfl, rfl⟩ | ⟨hne₁, hold₁⟩ := stored_cases hmap h₁
    · obtain ⟨rfl, rfl⟩ | ⟨hne₂, hold₂⟩ := stored_cases hmap h₂
      · exact absurd rfl hne
      · rw [Function.update_self]
        exact Or.inr (hbelow no₂ inst₂ hold₂)
    · obtain ⟨rfl, rfl⟩ | ⟨hne₂, hold₂⟩ := stored_cases hmap h₂
      · rw [Function.update_self]
        exact Or.inl (hbelow no₁ inst₁ hold₁)
      · rw [hloold hne₁, hloold hne₂]
        exact h.apart no₁ no₂ inst₁ inst₂ hold₁ hold₂ hne

end Shelf

/-- All stored graphs but the one with end task `e` have their counters back. -/
def AllRested (lo : Int → TaskId) (e : Option TaskId) (g : TaskDagGraph) : Prop :=
  ∀ no inst, g.reuse.dagInstanceMap no = some inst → lo no < inst.endTask →
    e ≠ some inst.endTask → Rested (lo no) inst.endTask g.heap

/-- A run of a stored graph without tasks. -/
structure Hollow {m : Nat} (e : TaskId) (r : Runtime m) : Prop where
  idle : r.Idle
  waits : r.main.waitsFor = some e
  roots : r.main.roots = []
  log : r.log = []

namespace Session

variable {m : Nat}

/-- The graph under construction. Tuples of a closed loop are not looked at again. -/
def building (s : Session m) : TaskDagGraph :=
  if s.looping then s.graph else { s.graph with oneVirtualTaskTuples := [] }

/-- Between two calls, `base` being the first task of the graph under construction. -/
structure Between (lo : Int → TaskId) (base : TaskId) (s : Session m) : Prop where
  shelf : Shelf (m + 1) lo base s.graph s.calls
  rested : AllRested lo none s.graph
  after : AfterRound s.runtime
  known : ∀ i t, (s.runtime.pc i).object = some t → t < base
  book : Book base s.building
  affinity : ∀ t, base ≤ t → t < s.graph.fresh →
    0 ≤ (s.heap t).affinityId ∧ (s.heap t).affinityId < (m + 1 : Nat)
  generator : s.graph.myAffinity.id < m + 1 ∧ s.graph.myAffinity.threadNum = m + 1
  since : tasksSince s.calls = interval base s.graph.fresh

/-- During a run of the graph from `a` to its end task `e`. -/
structure During (lo : Int → TaskId) (a e : TaskId) (s : Session m) : Prop where
  shelf : Shelf (m + 1) lo s.graph.fresh s.graph s.calls
  rested : AllRested lo (some e) s.graph
  round : InRound (Finset.Ico a e) e s.runtime ∨ (a = e ∧ Hollow e s.runtime)
  range : a ≤ e ∧ e < s.graph.fresh
  apart : ∀ no inst, s.graph.reuse.dagInstanceMap no = some inst →
    (inst.endTask = e ∧ lo no = a) ∨ inst.endTask < a ∨ e < lo no
  known : ∀ i t, (s.runtime.pc i).object = some t → t < s.graph.fresh
  generator : s.graph.myAffinity.id < m + 1 ∧ s.graph.myAffinity.threadNum = m + 1
  looping : s.looping = false
  running : runningTasks s.calls = some (interval a e)
  current : ∃ no kind calls, s.calls = .spawnAndWait no kind :: calls ∧
    (kind ≠ .built → ∃ inst, s.graph.reuse.dagInstanceMap no = some inst ∧
      inst.endTask = e ∧ lo no = a)

theorem between_start : Between (fun _ => 0) 0 (start : Session m) where
  shelf := by
    constructor
    · exact fun no _ => rfl
    · intro no inst h
      cases h
    · intro no inst h
      cases h
    · intro no inst h
      cases h
    · intro no no' inst inst' h
      cases h
  rested := by
    intro no inst h
    cases h
  after := ⟨idle_initial _, rfl⟩
  known := by
    intro i t h
    cases h
  book := (blank_init (m + 1)).book
  affinity := fun t _ ht => absurd ht (Nat.not_lt_zero t)
  generator := ⟨Nat.succ_pos m, rfl⟩
  since := rfl

/-! ## Steps of the threads -/

/-- No call is under way, and a thread comes to rest. -/
theorem Between.move {lo : Int → TaskId} {base : TaskId} {s : Session m} (h : Between lo base s)
    {i : Fin (m + 1)} {r : Runtime m} (hmove : Move s.runtime i r) :
    Between lo base { s with runtime := r } := by
  obtain ⟨hafter, hsame⟩ := h.after.move hmove
  have hgraph : r.graph = { s.graph with heap := r.heap } :=
    hmove.graph fun _ e hm => by rw [h.after.main] at hm; cases hm
  have hframe : ∀ t, base ≤ t → r.heap t = s.heap t := by
    intro t ht
    refine hsame.frame t fun j hj => ?_
    have := h.known j t hj
    lia
  have hreuse : r.graph.reuse = s.graph.reuse := by rw [hgraph]
  have hfresh : r.graph.fresh = s.graph.fresh := by rw [hgraph]
  constructor
  case shelf =>
    refine h.shelf.change (congrArg DagReuse.dagInstanceMap hreuse) (fun _ => rfl)
      (Nat.le_refl base) fun no inst hno hlt => ?_
    exact (h.shelf.kept no inst hno hlt).sameShape hsame.shape hsame.deleted
  case rested =>
    intro no inst hno hlt hne t hlo hhi
    have hrest := h.rested no inst (hreuse ▸ hno) hlt hne t hlo hhi
    show (r.heap t).refCount = (r.heap t).backupRef
    rw [hsame.refCount, hsame.shape.backupRef]
    exact hrest
  case after => exact hafter
  case known => exact fun j t ht => h.known j t (hsame.object j t ht)
  case book =>
    have hbuilding : building { s with runtime := r } = { s.building with heap := r.heap } := by
      unfold building
      show (if s.looping then r.graph else { r.graph with oneVirtualTaskTuples := [] }) = _
      rw [hgraph]
      split <;> rfl
    rw [hbuilding]
    refine h.book.setHeap fun t hlo _ => (hframe t hlo).trans ?_
    unfold building
    split <;> rfl
  case affinity =>
    intro t hlo hhi
    show 0 ≤ (r.heap t).affinityId ∧ (r.heap t).affinityId < (m + 1 : Nat)
    rw [hsame.shape.affinityId]
    exact h.affinity t hlo (hfresh ▸ hhi)
  case generator =>
    show r.graph.myAffinity.id < m + 1 ∧ r.graph.myAffinity.threadNum = m + 1
    rw [hgraph]
    exact h.generator
  case since =>
    show tasksSince s.calls = interval base r.graph.fresh
    rw [hfresh]
    exact h.since

end Session

/-! ## Hollow runs -/

theorem Hollow.move {m : Nat} {e : TaskId} {r r' : Runtime m} (h : Hollow e r)
    {i : Fin (m + 1)} (hback : i = 0 → ∀ e, r.main ≠ .returned e) (hmove : Move r i r') :
    Hollow e r' ∧ (∀ t, t ≠ e → (r'.heap t).refCount = (r.heap t).refCount) ∧
      ∀ i t, (r'.pc i).object = some t → (r.pc i).object = some t := by
  have hwaits := h.waits
  have hroots := h.roots
  cases hmove with
  | worker hi turn =>
      obtain ⟨hidle, hsame⟩ := h.idle.turn turn
      exact ⟨⟨hidle, hsame.main ▸ hwaits, hsame.main ▸ hroots, hsame.log.trans h.log⟩,
        fun t _ => hsame.refCount t, hsame.object⟩
  | root hm _ =>
      rw [hm] at hroots
      cases hroots
  | @enter e' hm =>
      rw [hm] at hwaits
      cases hwaits
      refine ⟨⟨⟨h.idle.queue, fun j => ?_⟩, rfl, rfl, h.log⟩, fun _ _ => rfl, fun j t ht => ?_⟩
      · show ((r.setPc 0 .next).pc j).Resting r.heap
        rw [setPc_pc]
        split
        · exact Pc.resting_next _
        · exact h.idle.resting j
      · have hobject : ((r.setPc 0 .next).pc j).object = some t := ht
        rw [setPc_pc] at hobject
        by_cases hj : j = 0
        · rw [if_pos hj] at hobject
          cases hobject
        · rwa [if_neg hj] at hobject
  | @test e' hm =>
      rw [hm] at hwaits
      cases hwaits
      refine ⟨⟨⟨h.idle.queue, h.idle.resting⟩, ?_, ?_, h.log⟩, fun _ _ => rfl, fun _ _ => id⟩
      · show MainPc.waitsFor (if _ then _ else _) = _
        split <;> rfl
      · show MainPc.roots (if _ then _ else _) = _
        split <;> rfl
  | run hm turn =>
      obtain ⟨hidle, hsame⟩ := h.idle.turn turn
      exact ⟨⟨hidle, hsame.main ▸ hwaits, hsame.main ▸ hroots, hsame.log.trans h.log⟩,
        fun t _ => hsame.refCount t, hsame.object⟩
  | @turnEnd e' r₁ hm turn =>
      rw [hm] at hwaits
      cases hwaits
      obtain ⟨hidle, hsame⟩ := h.idle.turn turn
      exact ⟨⟨⟨hidle.queue, hidle.resting⟩, rfl, rfl, hsame.log.trans h.log⟩,
        fun t _ => hsame.refCount t, hsame.object⟩
  | @leave e' hm =>
      rw [hm] at hwaits
      cases hwaits
      refine ⟨⟨⟨h.idle.queue, fun j => ?_⟩, rfl, rfl, h.log⟩,
        fun t _ => r.heap.refCount_delete e t, fun _ _ => id⟩
      exact (r.heap.sameShape_delete e).resting (h.idle.resting j)
  | back hm => exact absurd hm (hback rfl _)

namespace Session

variable {m : Nat} {lo : Int → TaskId} {a e : TaskId} {s : Session m}

/-- What a round does to the objects of other graphs. -/
theorem During.move_frame (h : During lo a e s) {i : Fin (m + 1)} {r : Runtime m}
    (hback : i = 0 → ∀ e, s.runtime.main ≠ .returned e) (hmove : Move s.runtime i r) :
    (InRound (Finset.Ico a e) e r ∨ (a = e ∧ Hollow e r)) ∧
    (∀ t, t < a ∨ e < t → (r.heap t).refCount = (s.heap t).refCount) ∧
    ∀ i t, (r.pc i).object = some t → t < s.graph.fresh := by
  obtain hin | ⟨hae, hollow⟩ := h.round
  · refine ⟨Or.inl (hin.move (fun hi => hback hi e) hmove), fun t ht => ?_, fun j t ht => ?_⟩
    · refine hin.move_refCount hmove (fun hmem => ?_) (by have := h.range; lia)
      have := Finset.mem_Ico.mp hmem
      lia
    · obtain hobject | hmem := hin.move_object hmove ht
      · exact h.known j t hobject
      · have := Finset.mem_Ico.mp hmem
        have := h.range
        lia
  · obtain ⟨hollow', hcount, hobject⟩ := hollow.move hback hmove
    exact ⟨Or.inr ⟨hae, hollow'⟩, fun t ht => hcount t (by lia),
      fun j t ht => h.known j t (hobject j t ht)⟩

theorem During.move (h : During lo a e s) {i : Fin (m + 1)} {r : Runtime m}
    (hback : i = 0 → ∀ e, s.runtime.main ≠ .returned e) (hmove : Move s.runtime i r) :
    During lo a e { s with runtime := r } := by
  obtain ⟨hround, hcount, hknown⟩ := h.move_frame hback hmove
  have hgraph := hmove.graph hback
  have hshape := hmove.shape
  have hreuse : r.graph.reuse = s.graph.reuse := by rw [hgraph]
  have hfresh : r.graph.fresh = s.graph.fresh := by rw [hgraph]
  constructor
  case shelf =>
    refine h.shelf.change (congrArg DagReuse.dagInstanceMap hreuse) (fun _ => rfl)
      (Nat.le_of_eq hfresh.symm) fun no inst hno hlt => ?_
    exact (h.shelf.kept no inst hno hlt).sameShape hshape fun t ht => hmove.deleted ht
  case rested =>
    intro no inst hno hlt hne t hlo hhi
    have hno : s.graph.reuse.dagInstanceMap no = some inst := hreuse ▸ hno
    have hrest := h.rested no inst hno hlt hne t hlo hhi
    show (r.heap t).refCount = (r.heap t).backupRef
    rw [hshape.backupRef, hcount]
    · exact hrest
    · obtain ⟨he, -⟩ | hbelow | habove := h.apart no inst hno
      · exact absurd (congrArg some he.symm) hne
      · lia
      · lia
  case round => exact hround
  case range =>
    show a ≤ e ∧ e < r.graph.fresh
    rw [hfresh]
    exact h.range
  case apart => exact fun no inst hno => h.apart no inst (hreuse ▸ hno)
  case known =>
    intro j t ht
    show t < r.graph.fresh
    rw [hfresh]
    exact hknown j t ht
  case generator =>
    show r.graph.myAffinity.id < m + 1 ∧ r.graph.myAffinity.threadNum = m + 1
    rw [hgraph]
    exact h.generator
  case looping => exact h.looping
  case running => exact h.running
  case current =>
    obtain ⟨no, kind, calls, hcalls, hinst⟩ := h.current
    refine ⟨no, kind, calls, hcalls, fun hkind => ?_⟩
    obtain ⟨inst, hno, hrest⟩ := hinst hkind
    exact ⟨inst, (congrFun (congrArg DagReuse.dagInstanceMap hreuse) no).trans hno, hrest⟩

theorem During.waits (h : During lo a e s) : s.runtime.main.waitsFor = some e :=
  h.round.elim (fun hin => hin.waits) fun hollow => hollow.2.waits

theorem During.idle (h : During lo a e s)
    (hover : s.runtime.main = .left e ∨ s.runtime.main = .returned e) : s.runtime.Idle :=
  h.round.elim (fun hin => hin.idle hover) fun hollow => hollow.2.idle

/-- `spawn_and_wait` returns: the running graph has its counters back, too. -/
theorem During.back (h : During lo a e s) (hm : s.runtime.main = .returned e) :
    Between lo s.graph.fresh { s with runtime := { s.runtime with
      graph := ({ s.graph with
        heap := if (s.heap e).reused then s.heap.restoreRefCount e else s.heap }).resetTaskGraph
      main := .prog } } := by
  have hmove := Move.back hm
  have hshape := hmove.shape
  have hcount : ∀ t, ((if (s.heap e).reused then s.heap.restoreRefCount e else s.heap) t).refCount =
      if t = e ∧ (s.heap e).reused = true then (s.heap e).backupRef else (s.heap t).refCount :=
    fun t => Heap.refCount_restore s.heap e t
  constructor
  case shelf =>
    refine h.shelf.change rfl (fun _ => rfl) (Nat.le_refl _) fun no inst hno hlt => ?_
    exact (h.shelf.kept no inst hno hlt).sameShape hshape fun t ht => hmove.deleted ht
  case rested =>
    intro no inst hno hlt _ t hlo hhi
    have hkept := h.shelf.kept no inst hno hlt
    show ((if (s.heap e).reused then s.heap.restoreRefCount e else s.heap) t).refCount =
      ((if (s.heap e).reused then s.heap.restoreRefCount e else s.heap) t).backupRef
    rw [(s.heap.sameShape_restore e).backupRef, hcount]
    by_cases he : inst.endTask = e
    · -- the graph that has just been run
      by_cases hte : t = e
      · rw [if_pos ⟨hte, hkept.reused e (by lia) (by lia)⟩, hte]
      · rw [if_neg (fun hand => hte hand.1)]
        have hloa : lo no = a := by
          have := h.apart no inst hno
          have := h.range
          lia
        obtain hin | ⟨hae, -⟩ := h.round
        · exact hin.restored (Or.inr hm) (Finset.mem_Ico.mpr (by lia)) (hkept.reused t hlo hhi)
        · lia
    · have hte : t ≠ e := by
        have := h.apart no inst hno
        have := h.range
        lia
      rw [if_neg (fun hand => hte hand.1)]
      exact h.rested no inst hno hlt (fun hsome => he (Option.some.inj hsome).symm) t hlo hhi
  case after =>
    have hidle := h.idle (Or.inr hm)
    exact ⟨⟨hidle.queue, fun i => (s.heap.sameShape_restore e).resting (hidle.resting i)⟩, rfl⟩
  case known => exact h.known
  case book =>
    unfold building
    rw [if_neg (by simp [h.looping])]
    exact Book.empty (g := { TaskDagGraph.resetTaskGraph { s.graph with
      heap := if (s.heap e).reused then s.heap.restoreRefCount e else s.heap } with
        oneVirtualTaskTuples := [] }) (fun _ => rfl) rfl rfl rfl
  case affinity => exact fun t hlo hhi => absurd hlo (Nat.not_le_of_lt hhi)
  case generator => exact h.generator
  case since =>
    obtain ⟨no, kind, calls, hcalls, -⟩ := h.current
    show tasksSince s.calls = interval s.graph.fresh s.graph.fresh
    rw [hcalls, interval_self]
    rfl

/-! ## Calls that build -/

theorem Between.looped {base : TaskId} (h : Between lo base s) : Book base
    { s.graph with oneVirtualTaskTuples := [] } := by
  have hbook := h.book
  unfold building at hbook
  split at hbook
  · exact { hbook with tuples := by simp }
  · exact hbook

/-- A call that changes the graph under construction. -/
theorem Between.setGraph {base : TaskId} (h : Between lo base s) {g : TaskDagGraph}
    {looping : Bool} {calls : List Call}
    (hbook : Book base (if looping then g else { g with oneVirtualTaskTuples := [] }))
    (hheap : ∀ t, t < base → g.heap t = s.heap t)
    (hmap : g.reuse.dagInstanceMap = s.graph.reuse.dagInstanceMap)
    (hstored : ∀ no, storedTasks no calls = storedTasks no s.calls)
    (haff : ∀ t, base ≤ t → t < g.fresh →
      0 ≤ (g.heap t).affinityId ∧ (g.heap t).affinityId < (m + 1 : Nat))
    (hgen : g.myAffinity.id < m + 1 ∧ g.myAffinity.threadNum = m + 1)
    (hsince : tasksSince calls = interval base g.fresh) :
    Between lo base { s.setGraph g with looping := looping, calls := calls } := by
  have hbelow : ∀ no inst, s.graph.reuse.dagInstanceMap no = some inst → ∀ t, t ≤ inst.endTask →
      g.heap t = s.heap t := fun no inst hno t ht =>
    hheap t (Nat.lt_of_le_of_lt ht (h.shelf.tasks no inst hno).2.1)
  constructor
  case shelf =>
    refine h.shelf.change hmap hstored (Nat.le_refl base) fun no inst hno hlt => ?_
    exact (h.shelf.kept no inst hno hlt).congr fun t _ hhi => hbelow no inst hno t hhi
  case rested =>
    intro no inst hno hlt hne t hlo hhi
    have hno : s.graph.reuse.dagInstanceMap no = some inst := hmap ▸ hno
    show (g.heap t).refCount = (g.heap t).backupRef
    rw [hbelow no inst hno t hhi]
    exact h.rested no inst hno hlt hne t hlo hhi
  case after =>
    exact ⟨h.after.idle.congr rfl rfl fun i t ht => hheap t (h.known i t ht), h.after.main⟩
  case known => exact h.known
  case book => exact hbook
  case affinity => exact haff
  case generator => exact hgen
  case since => exact hsince

theorem Between.book_of_looping {base : TaskId} (h : Between lo base s)
    (hloop : s.looping = true) : Book base s.graph := by
  have hbook := h.book
  rwa [building, if_pos hloop] at hbook

theorem Between.build {base : TaskId} (h : Between lo base s) {c : BuildCall} {s' : Session m}
    (hs : s.build c = some s') : Between lo base s' := by
  have hgen := h.generator
  unfold Session.build at hs
  split at hs
  · cases hs
    exact h.setGraph h.looped.beginSplitTask (fun _ _ => rfl) rfl (fun _ => rfl) h.affinity
      ⟨Nat.succ_pos m, hgen.2⟩ h.since
  · split at hs
    · rename_i n _ hn
      cases hs
      exact h.setGraph (h.looped.beginSplitTaskNamed n) (fun _ _ => rfl) rfl (fun _ => rfl)
        h.affinity ⟨Nat.succ_pos m, hn⟩ h.since
    · cases hs
  · rename_i spec hloop
    cases hs
    have hbook := h.book_of_looping hloop
    have hs' : ({ s.setGraph (s.graph.taskGenerator spec) with
        calls := .task s.graph.fresh :: s.calls } : Session m) =
        { s.setGraph (s.graph.taskGenerator spec) with
          looping := true, calls := .task s.graph.fresh :: s.calls } := by
      rw [← hloop]
      rfl
    rw [hs']
    refine h.setGraph (hbook.taskGenerator spec) (fun t ht => taskGenerator_below hbook spec ht)
      (by rw [taskGenerator_reuse]) (fun _ => rfl) (fun t hlo hhi => ?_) ?_ ?_
    · rw [taskGenerator_affinityId]
      rw [taskGenerator_fresh] at hhi
      by_cases ht : t = s.graph.fresh
      · rw [if_pos ht]
        have := hgen.1
        omega
      · rw [if_neg ht]
        exact h.affinity t hlo (by lia)
    · rw [taskGenerator_myAffinity]
      show (s.graph.myAffinity.id + 1) % s.graph.myAffinity.threadNum < m + 1 ∧
        s.graph.myAffinity.threadNum = m + 1
      rw [hgen.2]
      exact ⟨Nat.mod_lt _ (Nat.succ_pos m), rfl⟩
    · show s.graph.fresh :: tasksSince s.calls = _
      rw [taskGenerator_fresh, interval_succ hbook.lo_le, h.since]
  · rename_i hloop
    cases hs
    have hbook := h.book_of_looping hloop
    rw [endSplitTask_eq]
    have hend := hbook.endSplitTask
    rw [endSplitTask_eq] at hend
    exact h.setGraph { hend with tuples := by simp } (fun _ _ => rfl) rfl (fun _ => rfl)
      h.affinity hgen h.since
  · cases hs

theorem dagStart_eq (g : TaskDagGraph) (dagNo : Int) (intVec : List Int)
    (floatVec : List Double) : ∃ u : DagReuse,
      (g.dagStart dagNo intVec floatVec).1 = { g with reuse := u } ∧
        u.dagInstanceMap = g.reuse.dagInstanceMap ∧ u.currDagNo = dagNo := by
  unfold TaskDagGraph.dagStart
  dsimp only
  split
  · split
    · exact ⟨_, rfl, rfl, rfl⟩
    · exact ⟨_, rfl, rfl, rfl⟩
  · exact ⟨_, rfl, rfl, rfl⟩

theorem Between.dagStart {base : TaskId} (h : Between lo base s) (hloop : s.looping = false)
    (dagNo : Int) (intVec : List Int) (floatVec : List Double) :
    Between lo base (s.dagStart dagNo intVec floatVec) := by
  obtain ⟨u, hu, hmap, -⟩ := dagStart_eq s.graph dagNo intVec floatVec
  have hbook := h.looped
  unfold Session.dagStart
  rw [hu]
  refine h.setGraph ?_ (fun _ _ => rfl) hmap (fun _ => rfl) h.affinity
    h.generator h.since
  show Book base (if s.looping then _ else _)
  rw [if_neg (by simp [hloop])]
  exact { hbook with }

/-! ## The call of `spawn_and_wait` -/

/-- `spawn` counts the end task once more and leaves the stored graphs alone. -/
theorem During.of_spawn {g : TaskDagGraph} {r : Runtime m} {calls : List Call}
    (hend : g.endTask = some e)
    (hround : Ready (Finset.Ico a e) e { s.runtime with graph := g } ∨
      (a = e ∧ g.needSpawnTasks = [] ∧ ({ s.runtime with graph := g } : Runtime m).Idle))
    (hspawn : ({ s.runtime with graph := g } : Runtime m).spawn = some r)
    (hshelf : Shelf (m + 1) lo g.fresh g calls) (hrested : AllRested lo (some e) g)
    (hrange : a ≤ e ∧ e < g.fresh)
    (hapart : ∀ no inst, g.reuse.dagInstanceMap no = some inst →
      (inst.endTask = e ∧ lo no = a) ∨ inst.endTask < a ∨ e < lo no)
    (hknown : ∀ i t, (s.runtime.pc i).object = some t → t < g.fresh)
    (hgen : g.myAffinity.id < m + 1 ∧ g.myAffinity.threadNum = m + 1)
    (hloop : s.looping = false) (hrunning : runningTasks calls = some (interval a e))
    (hcurrent : ∃ no kind rest, calls = .spawnAndWait no kind :: rest ∧
      (kind ≠ .built → ∃ inst, g.reuse.dagInstanceMap no = some inst ∧
        inst.endTask = e ∧ lo no = a)) :
    During lo a e { s with runtime := r, calls := calls } := by
  have hr : r = { ({ s.runtime with graph := g } : Runtime m).setHeap
      (g.heap.incrementRefCount e) with main := .spawn e g.needSpawnTasks, log := [] } := by
    obtain ⟨e', hend', -, hr⟩ := Runtime.spawn_eq_some_iff.mp hspawn
    obtain rfl : e = e' := Option.some.inj (hend.symm.trans hend')
    exact hr
  have hshape := g.heap.sameShape_increment e
  have hdeleted := g.heap.deleted_increment e
  have hin : InRound (Finset.Ico a e) e r ∨ (a = e ∧ Hollow e r) := by
    obtain hready | ⟨hae, hroots, hidle⟩ := hround
    · exact Or.inl (hready.inRound hspawn)
    · refine Or.inr ⟨hae, ?_⟩
      rw [hr]
      exact ⟨⟨hidle.queue, fun i => hshape.resting (hidle.resting i)⟩, rfl, hroots, rfl⟩
  subst hr
  constructor
  case shelf =>
    refine hshelf.change rfl (fun _ => rfl) (Nat.le_refl _) fun no inst hno hlt => ?_
    exact (hshelf.kept no inst hno hlt).sameShape hshape fun t _ => hdeleted t
  case rested =>
    intro no inst hno hlt hne t hlo hhi
    have hte : t ≠ e := by
      have hne : inst.endTask ≠ e := fun he => hne (congrArg some he.symm)
      have := hapart no inst hno
      lia
    show (g.heap.incrementRefCount e t).refCount = (g.heap.incrementRefCount e t).backupRef
    rw [hshape.backupRef, Heap.refCount_increment, if_neg hte, Int.add_zero]
    exact hrested no inst hno hlt hne t hlo hhi
  case round => exact hin
  case range => exact hrange
  case apart => exact hapart
  case known => exact hknown
  case generator => exact hgen
  case looping => exact hloop
  case running => exact hrunning
  case current => exact hcurrent

section Closed

variable {base : TaskId} (h : Between lo base s)
include h

theorem Between.closed_below {t : TaskId} (ht : t < base) :
    s.graph.endConstructDag.heap t = s.heap t :=
  h.looped.endConstructDag_below ht

/-- The graph under construction is ready to run once it is closed, before and after its
objects are marked. -/
theorem Between.ready {g : TaskDagGraph}
    (hmarks : s.graph.endConstructDag.heap.SameButMarks g.heap)
    (hbelow : ∀ t, t < base → g.heap t = s.heap t) (hend : g.endTask = some s.graph.fresh)
    (hroots : g.needSpawnTasks = s.graph.needSpawnTasks) :
    Ready (Finset.Ico base s.graph.fresh) s.graph.fresh { s.runtime with graph := g } := by
  have hb := h.looped
  refine hb.ready ⟨hmarks.outs, hmarks.isAceMesh, hmarks.refCount⟩ hend hroots ?_
    (h.after.idle.congr rfl rfl fun i t ht => hbelow t (h.known i t ht)) h.after.main
  · intro t ht
    obtain ⟨hlo, hhi⟩ := Finset.mem_Ico.mp ht
    have haff : (g.heap t).affinityId = (s.heap t).affinityId := by
      rw [hmarks.affinityId]
      have hclosed := hb.endConstructDag_heap t
      have hne : t ≠ s.graph.fresh := fun he => absurd hhi (by rw [he]; exact Nat.lt_irrefl _)
      rw [if_neg hne] at hclosed
      refine (congrArg Task.affinityId hclosed).trans ?_
      split <;> rfl
    show 0 ≤ (g.heap t).affinityId ∧ _
    rw [haff]
    exact h.affinity t hlo hhi

/-- Closing the graph makes one more object and changes none below. -/
theorem Between.shelf_closed {g : TaskDagGraph} (calls : List Call)
    (hbelow : ∀ t, t < base → g.heap t = s.heap t) (hfresh : g.fresh = s.graph.fresh + 1)
    (hmap : g.reuse.dagInstanceMap = s.graph.reuse.dagInstanceMap)
    (hstored : ∀ no, storedTasks no calls = storedTasks no s.calls) :
    Shelf (m + 1) lo g.fresh g calls ∧ AllRested lo none g := by
  have hle := h.looped.lo_le
  have hin : ∀ no inst, s.graph.reuse.dagInstanceMap no = some inst → ∀ t, t ≤ inst.endTask →
      g.heap t = s.heap t := fun no inst hno t ht =>
    hbelow t (Nat.lt_of_le_of_lt ht (h.shelf.tasks no inst hno).2.1)
  refine ⟨h.shelf.change hmap hstored ?_ fun no inst hno hlt => ?_, ?_⟩
  · rw [hfresh]
    exact Nat.le_succ_of_le hle
  · exact (h.shelf.kept no inst hno hlt).congr fun t _ hhi => hin no inst hno t hhi
  · intro no inst hno hlt hne t hlo hhi
    have hno : s.graph.reuse.dagInstanceMap no = some inst := hmap ▸ hno
    rw [hin no inst hno t hhi]
    exact h.rested no inst hno hlt hne t hlo hhi

end Closed

theorem Between.spawnBuilt {base : TaskId} (h : Between lo base s) (hloop : s.looping = false)
    {r : Runtime m}
    (hspawn : ({ s.runtime with graph := s.graph.endConstructDag } : Runtime m).spawn =
      some r) (no : Int) :
    During lo base s.graph.fresh
      { s with runtime := r, calls := .spawnAndWait no .built :: s.calls } := by
  have hle := h.looped.lo_le
  obtain ⟨hshelf, hrested⟩ := h.shelf_closed (g := s.graph.endConstructDag)
    (.spawnAndWait no .built :: s.calls)
    (fun t ht => h.closed_below ht) rfl rfl (fun _ => rfl)
  refine During.of_spawn rfl (Or.inl (h.ready (fun _ => rfl)
    (fun t ht => h.closed_below ht) rfl rfl)) hspawn hshelf
    (fun no inst hno hlt _ => hrested no inst hno hlt (by simp)) ⟨hle, Nat.lt_succ_self _⟩ ?_ ?_
    h.generator hloop (congrArg some h.since) ⟨no, .built, s.calls, rfl, fun hk => absurd rfl hk⟩
  · exact fun no inst hno => Or.inr (Or.inl (h.shelf.tasks no inst hno).2.1)
  · intro i t ht
    have := h.known i t ht
    show t < s.graph.fresh + 1
    have hle : base ≤ s.graph.fresh := hle
    lia

theorem Between.spawnResumed {base : TaskId} (h : Between lo base s) (hloop : s.looping = false)
    {r : Runtime m}
    (hspawn : ({ s.runtime with graph := s.graph.resumeFromBuffer } : Runtime m).spawn = some r) :
    ∃ inst, s.graph.reuse.dagInstanceMap s.graph.reuse.currDagNo = some inst ∧
      During lo (lo s.graph.reuse.currDagNo) inst.endTask { s with
        runtime := r
        calls := .spawnAndWait s.graph.reuse.currDagNo .resumed :: s.calls } := by
  have hle : base ≤ s.graph.fresh := h.looped.lo_le
  unfold resumeFromBuffer at hspawn
  cases hinst : s.graph.reuse.dagInstanceMap s.graph.reuse.currDagNo with
  | none =>
      -- a `NULL` end task
      rw [hinst] at hspawn
      cases hspawn
  | some inst =>
      rw [hinst] at hspawn
      obtain ⟨hlo, hlt, htasks⟩ := h.shelf.tasks _ inst hinst
      have hidle : ({ s.runtime with graph := { s.graph with
          endTask := some inst.endTask, needSpawnTasks := inst.needSpawnTasks } } :
            Runtime m).Idle := ⟨h.after.idle.queue, h.after.idle.resting⟩
      refine ⟨inst, rfl, During.of_spawn rfl ?_ hspawn ?_ ?_ ⟨hlo, by lia⟩ ?_ ?_ h.generator
        hloop htasks ⟨_, .resumed, s.calls, rfl, fun _ => ⟨inst, hinst, rfl, rfl⟩⟩⟩
      · by_cases hempty : lo s.graph.reuse.currDagNo = inst.endTask
        · exact Or.inr ⟨hempty, h.shelf.empty _ inst hinst hempty, hidle⟩
        · have hne : lo s.graph.reuse.currDagNo < inst.endTask := by lia
          exact Or.inl (Kept.ready (r := { s.runtime with graph := { s.graph with
            endTask := some inst.endTask, needSpawnTasks := inst.needSpawnTasks } })
            (h.shelf.kept _ inst hinst hne) (h.rested _ inst hinst hne (by simp)) hlo rfl rfl hidle
            h.after.main)
      · exact h.shelf.change rfl (fun _ => rfl) hle (h.shelf.kept)
      · exact fun no inst' hno hlt _ => h.rested no inst' hno hlt (by simp)
      · intro no inst' hno
        by_cases hcurr : no = s.graph.reuse.currDagNo
        · rw [hcurr] at hno ⊢
          obtain rfl := Option.some.inj (hinst.symm.trans hno)
          exact Or.inl ⟨rfl, rfl⟩
        · exact Or.inr (h.shelf.apart no _ inst' inst hno hinst hcurr)
      · intro i t ht
        have := h.known i t ht
        show t < s.graph.fresh
        lia

/-- The first run of a numbered graph: its objects are marked, and it is saved under the
number. -/
theorem Between.spawnStored {base : TaskId} (h : Between lo base s) (hloop : s.looping = false)
    {cnt : Int → Option Int} :
    ∃ g, (TaskDagGraph.storeDagInfo { s.graph.endConstructDag with
        reuse := { s.graph.reuse with dagReuseCnt := cnt } }).map saveToBuffer = some g ∧
      ∀ r, ({ s.runtime with graph := g } : Runtime m).spawn = some r →
        During (Function.update lo s.graph.reuse.currDagNo base) base s.graph.fresh { s with
          runtime := r
          calls := .spawnAndWait s.graph.reuse.currDagNo .stored :: s.calls } := by
  have hb := h.looped
  have hle : base ≤ s.graph.fresh := hb.lo_le
  obtain ⟨heap, hrun, hmarks, hall⟩ := hb.storeDagInfo
  have hbelow : ∀ t, t < base → heap t = s.heap t := fun t ht =>
    (hmarks.frame t (Or.inl ht)).trans (h.closed_below ht)
  refine ⟨_, congrArg (Option.map saveToBuffer) (congrArg (Option.map _) hrun), fun r hspawn => ?_⟩
  set no := s.graph.reuse.currDagNo with hno
  set g : TaskDagGraph := { s.graph.endConstructDag with
    heap := heap
    reuse := { s.graph.reuse with
      dagReuseCnt := cnt
      dagInstanceMap := Function.update s.graph.reuse.dagInstanceMap no
        (some ⟨s.graph.fresh, s.graph.needSpawnTasks⟩) } } with hg
  have hready : Ready (Finset.Ico base s.graph.fresh) s.graph.fresh { s.runtime with graph := g } :=
    h.ready hmarks.same hbelow rfl rfl
  -- the graphs that have been stored before
  obtain ⟨hshelf, hrested⟩ := h.shelf_closed
    (g := { s.graph.endConstructDag with heap := heap }) s.calls hbelow rfl rfl (fun _ => rfl)
  have hlonew : Function.update lo no base no = base := Function.update_self ..
  have hkept : base < s.graph.fresh →
      Kept (m + 1) base s.graph.fresh s.graph.needSpawnTasks heap ∧
        Rested base s.graph.fresh heap := by
    intro hlt
    apply hready.kept (hall hlt)
    intro t hlo hhi
    exact (hmarks.same.deleted t).trans (hb.endConstructDag_attrs hlo hhi).2
  have hempty : base = s.graph.fresh → s.graph.needSpawnTasks = [] := by
    intro hemp
    apply List.eq_nil_iff_forall_not_mem.mpr
    intro t ht
    have hin := ((hb.mem_roots t).mp ht).1
    lia
  have hcalls : ∀ no', storedTasks no' (.spawnAndWait no .stored :: s.calls) =
      if no = no' then some (interval base s.graph.fresh) else storedTasks no' s.calls := by
    intro no'
    rw [← h.since]
    rfl
  have hshelf' : Shelf (m + 1) (Function.update lo no base) g.fresh g
      (.spawnAndWait no .stored :: s.calls) :=
    hshelf.insert rfl rfl hle (Nat.lt_succ_self _)
      (fun no' inst' hsome => (h.shelf.tasks no' inst' hsome).2.1) hcalls
      (fun hlt => (hkept hlt).1) hempty
  refine During.of_spawn rfl (Or.inl hready) hspawn hshelf' ?_ ⟨hle, Nat.lt_succ_self _⟩ ?_ ?_
    h.generator hloop (congrArg some h.since) ⟨no, .stored, s.calls, rfl, fun _ =>
      ⟨⟨s.graph.fresh, s.graph.needSpawnTasks⟩, Function.update_self .., rfl, hlonew⟩⟩
  · intro no' inst hsome hlt hne'
    obtain ⟨-, rfl⟩ | ⟨hne, hold⟩ := Shelf.stored_cases (g := s.graph) rfl hsome
    · exact absurd rfl hne'
    · rw [Function.update_of_ne hne] at hlt ⊢
      exact hrested no' inst hold hlt (by simp)
  · intro no' inst hsome
    obtain ⟨rfl, rfl⟩ | ⟨-, hold⟩ := Shelf.stored_cases (g := s.graph) rfl hsome
    · exact Or.inl ⟨rfl, hlonew⟩
    · exact Or.inr (Or.inl (h.shelf.tasks no' inst hold).2.1)
  · intro i t ht
    have hknown := h.known i t ht
    show t < s.graph.fresh + 1
    lia

theorem Between.spawnAndWait {base : TaskId} (h : Between lo base s) (hloop : s.looping = false)
    {s' : Session m} (hs : s.spawnAndWait = some s') :
    ∃ lo a e, During lo a e s' := by
  obtain ⟨g, hg, hr⟩ := Option.bind_eq_some_iff.mp hs
  obtain ⟨r, hspawn, rfl⟩ := Option.map_eq_some_iff.mp hr
  unfold kind
  by_cases hreuse : s.graph.reuses = true
  · rw [prepare_of_reuses hreuse] at hg
    cases hg
    obtain ⟨inst, -, hduring⟩ := h.spawnResumed hloop hspawn
    rw [if_pos hreuse]
    exact ⟨lo, _, _, hduring⟩
  · by_cases hinit : s.graph.inits = true
    · obtain ⟨g', hg', hduring⟩ := h.spawnStored hloop
      rw [prepare_of_inits hreuse hinit, hg'] at hg
      cases hg
      rw [if_neg hreuse, if_pos hinit]
      exact ⟨_, _, _, hduring r hspawn⟩
    · rw [prepare_of_not_inits hreuse hinit] at hg
      cases hg
      rw [if_neg hreuse, if_neg hinit]
      exact ⟨lo, _, _, h.spawnBuilt hloop hspawn _⟩

/-! ## Every run -/

/-- The session is between two calls or inside `spawn_and_wait`. -/
def Inv (s : Session m) : Prop :=
  (∃ lo base, Between lo base s) ∨ ∃ lo a e, During lo a e s

namespace Inv

theorem inside (h : Inv s) (i : Fin (m + 1)) : (s.runtime.pc i).Inside s.heap := by
  obtain ⟨lo, base, hbetween⟩ | ⟨lo, a, e, hduring⟩ := h
  · exact (hbetween.after.idle.resting i).inside
  · obtain hin | ⟨-, hollow⟩ := hduring.round
    · exact hin.round.inside i
    · exact (hollow.idle.resting i).inside

theorem move (h : Inv s) {i : Fin (m + 1)} {r : Runtime m} (hmove : Move s.runtime i r) :
    Inv { s with runtime := r } := by
  obtain ⟨lo, base, hbetween⟩ | ⟨lo, a, e, hduring⟩ := h
  · exact Or.inl ⟨lo, base, hbetween.move hmove⟩
  · by_cases hback : i = 0 ∧ ∃ e', s.runtime.main = .returned e'
    · obtain ⟨rfl, e', hm⟩ := hback
      have hwaits := hduring.waits
      rw [hm] at hwaits
      cases hwaits
      obtain rfl := hmove.of_returned hm
      exact Or.inl ⟨lo, _, hduring.back hm⟩
    · refine Or.inr ⟨lo, a, e, hduring.move (fun hi e' hm => hback ⟨hi, e', hm⟩) hmove⟩

/-- A call is only made between two calls. -/
theorem between (h : Inv s) (hm : s.runtime.main = .prog) : ∃ lo base, Between lo base s := by
  obtain hbetween | ⟨lo, a, e, hduring⟩ := h
  · exact hbetween
  · have hwaits := hduring.waits
    rw [hm] at hwaits
    cases hwaits

theorem during (h : Inv s) (hm : s.runtime.main ≠ .prog) : ∃ lo a e, During lo a e s := by
  obtain ⟨lo, base, hbetween⟩ | hduring := h
  · exact absurd hbetween.after.main hm
  · exact hduring

theorem call (h : Inv s) {c : ProgramCall} {s' : Session m} (hs : s.call c = some s') :
    Inv s' := by
  unfold Session.call at hs
  by_cases hm : s.runtime.main = .prog
  · rw [if_pos hm] at hs
    obtain ⟨lo, base, hbetween⟩ := h.between hm
    cases c with
    | build c => exact Or.inl ⟨lo, base, hbetween.build hs⟩
    | dagStart dagNo intVec floatVec =>
        cases hloop : s.looping with
        | true => simp [hloop] at hs
        | false =>
            simp only [hloop, Bool.false_eq_true, if_false, Option.some.injEq] at hs
            exact Or.inl ⟨lo, base, hs ▸ hbetween.dagStart hloop dagNo intVec floatVec⟩
    | spawnAndWait =>
        cases hloop : s.looping with
        | true => simp [hloop] at hs
        | false =>
            simp only [hloop, Bool.false_eq_true, if_false] at hs
            exact Or.inr (hbetween.spawnAndWait hloop hs)
  · rw [if_neg hm] at hs
    cases hs

theorem act (h : Inv s) {a : Act m} {s' : Session m} (hs : s.act a = some s') : Inv s' := by
  cases a with
  | thread i hit =>
      obtain ⟨r, hr, rfl⟩ := Option.map_eq_some_iff.mp hs
      exact h.move (step_move h.inside hr)
  | call c => exact h.call hs

end Inv

theorem Reached.inv {ok : Session m → Act m → Prop} {s : Session m} (h : Reached ok s) :
    s.Inv := by
  induction h with
  | start => exact Or.inl ⟨_, _, between_start⟩
  | act _ _ hact ih => exact ih.act hact

end Session

end AceMesh
