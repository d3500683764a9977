import AceMesh.Task
import AceMesh.Lib.Kahn

/-!
# Checking a graph

`dag_graph_check::check_graph_bfs` in the `DEBUG_GRAPH` build: Kahn's algorithm, with the
counters in the tasks. A counter of `-1` is unset: it is set to `ref_count` when the first edge
into the task is walked, and reset when the task leaves the queue. The loop counts the tasks
down instead of looking at the queue, which only an acyclic graph keeps filled
(`check_graph_iff`).

C's `int` is taken as unbounded. An `assert` that fails ends the run. What the function writes
to `out` is kept, what it writes to the console is not.
-/

namespace AceMesh.GraphCheck

open Relation Kahn

/-- The fields that `DEBUG_GRAPH` adds to a task. -/
structure DebugFields where
  isJoint : Bool
  refCountForCheck : Int
  loopId : Int
  taskId : Int

/-- The tasks and the variables of `check_graph_bfs`. -/
structure Check where
  debug : TaskId → DebugFields
  q : List TaskId
  out : String
  /-- The tasks that have left the queue. -/
  visited : List TaskId

/-- Where an assertion fails: a counter is not positive, or the queue is empty with so many tasks
left. -/
inductive Failure
  | notPositive (t : TaskId)
  | cantExecute (taskNums : Nat)
  deriving DecidableEq

def Check.setRefCountForCheck (s : Check) (t : TaskId) (value : Int) : Check :=
  { s with debug := Function.update s.debug t { s.debug t with refCountForCheck := value } }

/-- The counter after `dec_ref_count_for_check`, and the `push` behind it. -/
def Check.dec (s : Check) (t : TaskId) : Check :=
  let s := s.setRefCountForCheck t ((s.debug t).refCountForCheck - 1)
  if (s.debug t).refCountForCheck = 0 then { s with q := s.q ++ [t] } else s

/-- One edge to `t`, the same for the vertical task and for a successor. -/
def touch (heap : Heap) (s : Check) (t : TaskId) : Except Failure Check :=
  if (s.debug t).refCountForCheck = -1 then
    .ok ((s.setRefCountForCheck t (heap t).refCount).dec t)
  else if (s.debug t).refCountForCheck > 0 then .ok (s.dec t)
  else .error (.notPositive t)

/-- The edges of a task in the order in which they are checked. -/
def checkOuts (o : Task) : List TaskId := o.verticalTask.toList ++ o.successorTasks

def idText (debug : TaskId → DebugFields) (loopText taskText : String) (t : TaskId) : String :=
  loopText ++ toString (debug t).loopId ++ taskText ++ toString (debug t).taskId

/-- The line that is printed for a task. -/
def lineText (heap : Heap) (debug : TaskId → DebugFields) (tmp : TaskId) : String :=
  let parent := idText debug "parent loop id," ", parent task id," tmp
  let vertical := (heap tmp).verticalTask.toList.filter fun v => !(debug v).isJoint
  let successors := (heap tmp).successorTasks.filter fun it => !(debug it).isJoint
  if vertical = [] ∧ successors = [] then
    if (debug tmp).isJoint then "" else parent ++ "\n"
  else
    parent ++
      String.join (vertical.map (idText debug ", v_child loop id," ", v_child task id, ")) ++
      String.join (successors.map (idText debug ", child loop id," ", child task id, ")) ++ "\n"

/-- The end of a turn. -/
def Check.pop (heap : Heap) (printInfo : Bool) (tmp : TaskId) (s : Check) : Check :=
  { s.setRefCountForCheck tmp (-1) with
    q := s.q.tail
    out := if printInfo then s.out ++ lineText heap s.debug tmp else s.out
    visited := s.visited ++ [tmp] }

/-- The body of the loop, with `tmp` at the front of the queue. -/
def visit (heap : Heap) (printInfo : Bool) (tmp : TaskId) (s : Check) : Except Failure Check :=
  ((checkOuts (heap tmp)).foldlM (touch heap) s).map (Check.pop heap printInfo tmp)

/-- `while(task_nums > 0)`. -/
def loop (heap : Heap) (printInfo : Bool) : Nat → Check → Except Failure (Bool × Check)
  | 0, s => .ok (true, { s with out := s.out ++ "#\n" })
  | taskNums + 1, s =>
    match s.q with
    | [] => .error (.cantExecute (taskNums + 1))
    | tmp :: _ => (visit heap printInfo tmp s).bind (loop heap printInfo taskNums)

/-- A start task is pushed and its counter set. -/
def Check.push (heap : Heap) (s : Check) (t : TaskId) : Check :=
  { s.setRefCountForCheck t (heap t).refCount with q := s.q ++ [t] }

def checkGraphBfs (heap : Heap) (debug : TaskId → DebugFields) (startTasks : List TaskId)
    (taskNums : Nat) (printInfo : Bool) : Except Failure (Bool × Check) :=
  if taskNums = 0 then .ok (true, ⟨debug, [], "#\n", []⟩)
  else
    loop heap printInfo (taskNums + 1)
      (startTasks.foldl (Check.push heap) ⟨debug, [], "", []⟩)

/-! ## Counters -/

/-- The tasks that a task points to. -/
def outsOf (heap : Heap) (t : TaskId) : List TaskId := (heap t).outs

theorem checkOuts_perm (o : Task) : (checkOuts o).Perm o.outs := List.perm_append_comm

/-- The counters and the queue after `k t` edges into every task `t`. -/
structure Progress (heap : Heap) (nodes : Finset TaskId) (k : TaskId → Nat) (s : Check) :
    Prop where
  nodup : (s.visited ++ s.q).Nodup
  listed : ∀ t, t ∈ s.visited ++ s.q ↔ t ∈ nodes ∧ (k t : Int) = (heap t).refCount
  queued : ∀ t ∈ s.q, (s.debug t).refCountForCheck = 0
  reset : ∀ t ∈ s.visited, (s.debug t).refCountForCheck = -1
  waiting : ∀ t ∈ nodes, (k t : Int) < (heap t).refCount →
    (s.debug t).refCountForCheck = if k t = 0 then -1 else (heap t).refCount - k t

section

variable {heap : Heap} {nodes : Finset TaskId} {k : TaskId → Nat} {s : Check} {t : TaskId}

theorem setRefCountForCheck_self (value : Int) :
    ((s.setRefCountForCheck t value).debug t).refCountForCheck = value := by
  simp [Check.setRefCountForCheck]

theorem setRefCountForCheck_of_ne {u : TaskId} (hne : u ≠ t) (value : Int) :
    (s.setRefCountForCheck t value).debug u = s.debug u := Function.update_of_ne hne ..

theorem setRefCountForCheck_twice (value value' : Int) :
    (s.setRefCountForCheck t value).setRefCountForCheck t value' =
      s.setRefCountForCheck t value' := by
  unfold Check.setRefCountForCheck
  simp

/-- One edge into a task that still waits. -/
theorem Progress.touch_eq (h : Progress heap nodes k s) (ht : t ∈ nodes)
    (hlt : (k t : Int) < (heap t).refCount) :
    ∃ s', touch heap s t = .ok s' ∧
      s'.debug = (s.setRefCountForCheck t ((heap t).refCount - (k t + 1))).debug ∧
      s'.q = (if (heap t).refCount = k t + 1 then s.q ++ [t] else s.q) ∧
      s'.visited = s.visited := by
  have hcounter := h.waiting t ht hlt
  have hdec : touch heap s t = .ok
      (if (heap t).refCount - (k t + 1) = 0 then
        { s.setRefCountForCheck t ((heap t).refCount - (k t + 1)) with q := s.q ++ [t] }
      else s.setRefCountForCheck t ((heap t).refCount - (k t + 1))) := by
    unfold touch Check.dec
    by_cases hzero : k t = 0
    · -- the counter is still unset
      rw [if_pos hzero] at hcounter
      rw [if_pos hcounter]
      simp only [setRefCountForCheck_twice, setRefCountForCheck_self]
      rw [show (heap t).refCount - 1 = (heap t).refCount - (k t + 1) by omega]
      rfl
    · rw [if_neg hzero] at hcounter
      rw [if_neg (by omega), if_pos (by omega)]
      simp only [setRefCountForCheck_self, hcounter]
      rw [show (heap t).refCount - (k t : Int) - 1 = (heap t).refCount - (k t + 1) by omega]
      rfl
  refine ⟨_, hdec, ?_, ?_, ?_⟩
  · split <;> rfl
  · by_cases hlast : (heap t).refCount = k t + 1
    · rw [if_pos hlast, if_pos (by omega)]
    · rw [if_neg hlast, if_neg (by omega)]
      rfl
  · split <;> rfl

theorem Progress.touch (h : Progress heap nodes k s) (ht : t ∈ nodes)
    (hlt : (k t : Int) < (heap t).refCount) :
    ∃ s', GraphCheck.touch heap s t = .ok s' ∧
      Progress heap nodes (fun x => k x + if x = t then 1 else 0) s' ∧
      s'.visited = s.visited ∧ s.q <+: s'.q := by
  obtain ⟨s', hok, hdebug, hq, hvisited⟩ := h.touch_eq ht hlt
  have hout : t ∉ s.visited ++ s.q := by
    intro hmem
    have heq := ((h.listed t).mp hmem).2
    omega
  rw [List.mem_append, not_or] at hout
  have hother (x : TaskId) (hx : x ≠ t) : s'.debug x = s.debug x := by
    rw [hdebug, setRefCountForCheck_of_ne hx]
  have hself : (s'.debug t).refCountForCheck = (heap t).refCount - (k t + 1) := by
    rw [hdebug, setRefCountForCheck_self]
  have hqueue (x : TaskId) : x ∈ s'.q ↔ x ∈ s.q ∨ x = t ∧ (heap t).refCount = k t + 1 := by
    rw [hq]
    split <;> simp [*]
  refine ⟨s', hok, ?_, hvisited, ?_⟩
  · constructor
    case nodup =>
      rw [hvisited, hq]
      split
      · rw [← List.append_assoc]
        apply List.Nodup.append h.nodup (List.nodup_singleton t)
        simp [List.disjoint_singleton, hout]
      · exact h.nodup
    case listed =>
      intro x
      have hlisted := h.listed x
      rw [List.mem_append] at hlisted
      rw [List.mem_append, hvisited, hqueue, ← or_assoc, hlisted]
      by_cases hx : x = t
      · subst hx
        simp only [ht, true_and, if_true]
        lia
      · simp [hx]
    case queued =>
      intro x hx
      by_cases hxt : x = t
      · subst hxt
        have hlast := ((hqueue x).mp hx).resolve_left hout.2
        lia
      · rw [hother x hxt]
        exact h.queued x (((hqueue x).mp hx).resolve_right fun hbad => hxt hbad.1)
    case reset =>
      intro x hx
      rw [hvisited] at hx
      have hxt : x ≠ t := fun heq => hout.1 (heq ▸ hx)
      rw [hother x hxt]
      exact h.reset x hx
    case waiting =>
      intro x hx hlt'
      by_cases hxt : x = t
      · subst hxt
        rw [hself]
        simp
      · rw [if_neg hxt, Nat.add_zero] at hlt' ⊢
        rw [hother x hxt]
        exact h.waiting x hx hlt'
  · rw [hq]
    split
    · exact List.prefix_append _ _
    · exact List.prefix_refl _

theorem Progress.congr (h : Progress heap nodes k s) {k' : TaskId → Nat}
    (hk : ∀ x ∈ nodes, k' x = k x) : Progress heap nodes k' s := by
  constructor
  case nodup => exact h.nodup
  case listed =>
    intro x
    rw [h.listed]
    apply and_congr_right
    intro hx
    rw [hk x hx]
  case queued => exact h.queued
  case reset => exact h.reset
  case waiting =>
    intro x hx hlt
    rw [hk x hx] at hlt ⊢
    exact h.waiting x hx hlt

/-- All edges of a task. -/
theorem Progress.touchAll (h : Progress heap nodes k s) (l : List TaskId)
    (hl : ∀ x ∈ l, x ∈ nodes)
    (hle : ∀ x ∈ nodes, ((k x + l.count x : Nat) : Int) ≤ (heap x).refCount) :
    ∃ s', l.foldlM (GraphCheck.touch heap) s = .ok s' ∧
      Progress heap nodes (fun x => k x + l.count x) s' ∧
      s'.visited = s.visited ∧ s.q <+: s'.q := by
  induction l generalizing k s with
  | nil => exact ⟨s, rfl, h, rfl, List.prefix_refl _⟩
  | cons t l ih =>
      have ht : t ∈ nodes := hl t List.mem_cons_self
      have hlt : (k t : Int) < (heap t).refCount := by
        have hle := hle t ht
        rw [List.count_cons_self] at hle
        lia
      obtain ⟨s₁, hok₁, h₁, hvisited₁, hq₁⟩ := h.touch ht hlt
      have hcount (x : TaskId) :
          k x + (t :: l).count x = k x + (if x = t then 1 else 0) + l.count x := by
        rw [List.count_cons]
        by_cases hx : x = t
        · simp only [hx, beq_self_eq_true, if_true]
          omega
        · simp [hx, Ne.symm hx]
      obtain ⟨s₂, hok₂, h₂, hvisited₂, hq₂⟩ := ih h₁ (fun x hx => hl x (List.mem_cons_of_mem t hx))
        (fun x hx => by rw [← hcount]; exact hle x hx)
      refine ⟨s₂, ?_, h₂.congr fun x _ => hcount x, hvisited₂.trans hvisited₁, hq₁.trans hq₂⟩
      rw [List.foldlM_cons, hok₁]
      exact hok₂

/-- The task at the front leaves the queue. -/
theorem Progress.pop (h : Progress heap nodes k s) (printInfo : Bool) {tmp : TaskId}
    {q : List TaskId} (hq : s.q = tmp :: q) :
    Progress heap nodes k (s.pop heap printInfo tmp) := by
  have hlist : (s.pop heap printInfo tmp).visited ++ (s.pop heap printInfo tmp).q =
      s.visited ++ s.q := by
    unfold Check.pop
    rw [hq, List.append_assoc]
    rfl
  have hnodup := h.nodup
  rw [hq] at hnodup
  have hfront : tmp ∈ s.visited ++ s.q := by
    rw [hq]
    exact List.mem_append_right _ List.mem_cons_self
  have hother (x : TaskId) (hx : x ≠ tmp) : (s.pop heap printInfo tmp).debug x = s.debug x :=
    setRefCountForCheck_of_ne hx (-1)
  constructor
  case nodup =>
    rw [hlist]
    exact h.nodup
  case listed =>
    rw [hlist]
    exact h.listed
  case queued =>
    intro x hx
    have hx : x ∈ q := by
      change x ∈ s.q.tail at hx
      rwa [hq] at hx
    have hne : x ≠ tmp := by
      intro heq
      have hnot := (List.nodup_cons.mp (List.nodup_append.mp hnodup).2.1).1
      exact hnot (heq ▸ hx)
    rw [hother x hne]
    apply h.queued
    rw [hq]
    exact List.mem_cons_of_mem tmp hx
  case reset =>
    intro x hx
    by_cases hxt : x = tmp
    · rw [hxt]
      exact setRefCountForCheck_self (-1)
    · rw [hother x hxt]
      rcases List.mem_append.mp hx with hx | hx
      · exact h.reset x hx
      · exact absurd (List.mem_singleton.mp hx) hxt
  case waiting =>
    intro x hx hlt
    have hne : x ≠ tmp := by
      intro heq
      have hall := ((h.listed tmp).mp hfront).2
      rw [heq] at hlt
      omega
    rw [hother x hne]
    exact h.waiting x hx hlt

end

/-! ## The graph to be checked -/

/-- The tasks `nodes` make up a graph with `endTask` at its end, ready to be checked. -/
structure Checkable (heap : Heap) (debug : TaskId → DebugFields) (nodes : Finset TaskId)
    (endTask : TaskId) (startTasks : List TaskId) (taskNums : Nat) : Prop where
  closed : ∀ t ∈ nodes, ∀ u ∈ (heap t).outs, u ∈ nodes
  refCount : ∀ t ∈ nodes, (heap t).refCount = into nodes (outsOf heap) t
  start_nodup : startTasks.Nodup
  mem_start : ∀ t, t ∈ startTasks ↔ t ∈ nodes ∧ ∀ u ∈ nodes, t ∉ (heap u).outs
  unset : ∀ t ∈ nodes, (debug t).refCountForCheck = -1
  end_mem : endTask ∈ nodes
  outs_end : ∀ t ∈ nodes, (heap t).outs = [] ↔ t = endTask
  before_end : ∃ t ∈ nodes, endTask ∈ (heap t).outs
  taskNums_pos : 1 ≤ taskNums
  card : nodes.card = taskNums + 1

/-- The graph has no cycle. -/
def Acyclic (heap : Heap) (nodes : Finset TaskId) : Prop :=
  ∀ t, ¬TransGen (Release.Edge nodes (outsOf heap)) t t

/-- The state between two turns. -/
structure Searched (heap : Heap) (nodes : Finset TaskId) (s : Check) : Prop where
  progress : Progress heap nodes (into s.visited.toFinset (outsOf heap)) s
  order : Topological nodes (outsOf heap) s.visited

section

variable {heap : Heap} {debug : TaskId → DebugFields} {nodes : Finset TaskId} {endTask : TaskId}
  {startTasks : List TaskId} {taskNums : Nat} {s : Check}

theorem Searched.visited_subset (h : Searched heap nodes s) : s.visited.toFinset ⊆ nodes := by
  intro t ht
  have hmem := List.mem_append_left s.q (List.mem_toFinset.mp ht)
  exact ((h.progress.listed t).mp hmem).1

/-- The tasks whose predecessors have all been visited are visited or in the queue. -/
theorem Searched.mem_iff (h : Searched heap nodes s)
    (hg : Checkable heap debug nodes endTask startTasks taskNums) (t : TaskId) :
    t ∈ s.visited ++ s.q ↔ t ∈ nodes ∧ ∀ u ∈ nodes, t ∈ (heap u).outs → u ∈ s.visited := by
  rw [h.progress.listed]
  apply and_congr_right
  intro ht
  rw [hg.refCount t ht, Int.natCast_inj, into_eq_iff h.visited_subset]
  simp only [List.mem_toFinset]
  rfl

/-- One turn. -/
theorem Searched.visit (h : Searched heap nodes s)
    (hg : Checkable heap debug nodes endTask startTasks taskNums) (printInfo : Bool)
    {tmp : TaskId} {q : List TaskId} (hq : s.q = tmp :: q) :
    ∃ s', GraphCheck.visit heap printInfo tmp s = .ok s' ∧ Searched heap nodes s' ∧
      s'.visited = s.visited ++ [tmp] := by
  have hmem : tmp ∈ s.visited ++ s.q := by
    rw [hq]
    exact List.mem_append_right _ List.mem_cons_self
  obtain ⟨htmp, hpreds⟩ := (h.mem_iff hg tmp).mp hmem
  have hnodup := h.progress.nodup
  rw [hq] at hnodup
  have hnew : tmp ∉ s.visited := by
    intro hbad
    exact (List.disjoint_of_nodup_append hnodup) hbad List.mem_cons_self
  have hinto (x : TaskId) : into (s.visited ++ [tmp]).toFinset (outsOf heap) x =
      into s.visited.toFinset (outsOf heap) x + (checkOuts (heap tmp)).count x := by
    rw [List.toFinset_append, Finset.union_comm]
    change into (insert tmp s.visited.toFinset) (outsOf heap) x = _
    rw [into_insert (by simpa using hnew), (checkOuts_perm _).count_eq]
    rfl
  have hsubset : (s.visited ++ [tmp]).toFinset ⊆ nodes := by
    rw [List.toFinset_append]
    exact Finset.union_subset h.visited_subset (by simpa using htmp)
  obtain ⟨s₁, hok, h₁, hvisited, hprefix⟩ := h.progress.touchAll (checkOuts (heap tmp))
    (fun x hx => hg.closed tmp htmp x ((checkOuts_perm _).mem_iff.mp hx))
    (fun x hx => by
      rw [← hinto, hg.refCount x hx]
      exact_mod_cast into_mono hsubset x)
  obtain ⟨q₁, hq₁⟩ := hprefix
  rw [hq, List.cons_append] at hq₁
  refine ⟨s₁.pop heap printInfo tmp, ?_, ⟨?_, ?_⟩, ?_⟩
  · unfold GraphCheck.visit
    rw [hok]
    rfl
  · have hpop := h₁.pop printInfo hq₁.symm
    apply hpop.congr
    intro x _
    change into (s₁.visited ++ [tmp]).toFinset (outsOf heap) x = _
    rw [hvisited, hinto]
  · change Topological nodes (outsOf heap) (s₁.visited ++ [tmp])
    rw [hvisited]
    apply h.order.concat
    intro u hu
    exact hpreds u hu.1 hu.2.2
  · change s₁.visited ++ [tmp] = _
    rw [hvisited]

/-- The loop visits so many tasks, or the queue runs empty before. -/
theorem Searched.loop (h : Searched heap nodes s)
    (hg : Checkable heap debug nodes endTask startTasks taskNums) (printInfo : Bool) (n : Nat) :
    (∃ s', GraphCheck.loop heap printInfo n s = .ok (true, s') ∧ Searched heap nodes s' ∧
      s'.visited.length = s.visited.length + n) ∨
    ∃ s' m, GraphCheck.loop heap printInfo n s = .error (.cantExecute m) ∧
      Searched heap nodes s' ∧ s'.q = [] ∧ 0 < m ∧ s'.visited.length + m = s.visited.length + n := by
  induction n generalizing s with
  | zero =>
      left
      exact ⟨_, rfl, ⟨⟨h.progress.nodup, h.progress.listed, h.progress.queued, h.progress.reset,
        h.progress.waiting⟩, h.order⟩, rfl⟩
  | succ n ih =>
      cases hq : s.q with
      | nil =>
          right
          refine ⟨s, n + 1, ?_, h, hq, Nat.succ_pos n, rfl⟩
          unfold GraphCheck.loop
          rw [hq]
      | cons tmp q =>
          obtain ⟨s₁, hok, h₁, hvisited⟩ := h.visit hg printInfo hq
          have hlen : s₁.visited.length = s.visited.length + 1 := by simp [hvisited]
          have hstep : GraphCheck.loop heap printInfo (n + 1) s =
              GraphCheck.loop heap printInfo n s₁ := by
            conv_lhs => unfold GraphCheck.loop
            rw [hq]
            dsimp only
            rw [hok]
            rfl
          rw [hstep]
          rcases ih h₁ with ⟨s', hrun, h', hlen'⟩ | ⟨s', m, hrun, h', hempty, hm, hlen'⟩
          · left
            exact ⟨s', hrun, h', by omega⟩
          · right
            exact ⟨s', m, hrun, h', hempty, hm, by omega⟩

/-- The queue of start tasks. -/
theorem push_fold (s : Check) (l : List TaskId) :
    (l.foldl (Check.push heap) s).q = s.q ++ l ∧
    (l.foldl (Check.push heap) s).visited = s.visited ∧
    ∀ t, ((l.foldl (Check.push heap) s).debug t).refCountForCheck =
      if t ∈ l then (heap t).refCount else (s.debug t).refCountForCheck := by
  induction l using List.reverseRecOn with
  | nil => simp
  | append_singleton l u ih =>
      obtain ⟨hq, hvisited, hdebug⟩ := ih
      rw [List.foldl_append, List.foldl_cons, List.foldl_nil]
      refine ⟨?_, hvisited, ?_⟩
      · rw [← List.append_assoc, ← hq]
        rfl
      · intro t
        change (((l.foldl (Check.push heap) s).setRefCountForCheck u (heap u).refCount).debug
          t).refCountForCheck = _
        by_cases ht : t = u
        · rw [ht, setRefCountForCheck_self]
          simp
        · rw [setRefCountForCheck_of_ne ht, hdebug]
          simp [ht]

/-- The state before the loop. -/
theorem Checkable.start (hg : Checkable heap debug nodes endTask startTasks taskNums) :
    Searched heap nodes (startTasks.foldl (Check.push heap) ⟨debug, [], "", []⟩) := by
  obtain ⟨hq, hvisited, hdebug⟩ := @push_fold heap ⟨debug, [], "", []⟩ startTasks
  rw [List.nil_append] at hq
  have hzero (t : TaskId) : into (∅ : Finset TaskId) (outsOf heap) t = 0 := rfl
  have hstart (t : TaskId) : t ∈ startTasks ↔ t ∈ nodes ∧ (heap t).refCount = 0 := by
    rw [hg.mem_start]
    apply and_congr_right
    intro ht
    rw [hg.refCount t ht, ← Int.natCast_zero, Int.natCast_inj, eq_comm, ← hzero t,
      into_eq_iff (Finset.empty_subset nodes)]
    simp [outsOf]
  constructor
  · constructor
    case nodup =>
      rw [hvisited, hq]
      exact hg.start_nodup
    case listed =>
      intro t
      rw [hvisited, hq]
      change t ∈ startTasks ↔ t ∈ nodes ∧ ((0 : Nat) : Int) = _
      rw [hstart, eq_comm]
      rfl
    case queued =>
      intro t ht
      rw [hq] at ht
      rw [hdebug, if_pos ht]
      exact ((hstart t).mp ht).2
    case reset =>
      intro t ht
      rw [hvisited] at ht
      cases ht
    case waiting =>
      intro t ht hlt
      rw [hvisited] at hlt ⊢
      change ((0 : Nat) : Int) < _ at hlt
      have hnot : t ∉ startTasks := by
        intro hbad
        have hbad := ((hstart t).mp hbad).2
        omega
      rw [hdebug, if_neg hnot, hg.unset t ht]
      rfl
  · rw [hvisited]
    exact Topological.nil

theorem Searched.all_visited (h : Searched heap nodes s) (hlen : s.visited.length = nodes.card)
    (t : TaskId) : t ∈ s.visited ↔ t ∈ nodes := by
  have hnodup : s.visited.Nodup := (List.nodup_append.mp h.progress.nodup).1
  have hcard : s.visited.toFinset.card = nodes.card := by
    rw [List.toFinset_card_of_nodup hnodup, hlen]
  rw [← Finset.eq_of_subset_of_card_le h.visited_subset hcard.ge, List.mem_toFinset]

/-- An empty queue with tasks left shows a cycle. -/
theorem Searched.not_acyclic (h : Searched heap nodes s)
    (hg : Checkable heap debug nodes endTask startTasks taskNums) (hempty : s.q = [])
    (hlen : s.visited.length < nodes.card) : ¬Acyclic heap nodes := by
  intro hacyclic
  have hleft : ∃ t ∈ nodes, t ∉ s.visited := by
    by_contra hno
    push Not at hno
    have hle := Finset.card_le_card (show nodes ⊆ s.visited.toFinset from
      fun t ht => List.mem_toFinset.mpr (hno t ht))
    have hle' := List.toFinset_card_le s.visited
    omega
  obtain ⟨t, ht, hout⟩ := hleft
  obtain ⟨u, hu, hout, hpreds⟩ := exists_unlisted hacyclic ht hout
  have hmem := (h.mem_iff hg u).mpr ⟨hu, hpreds⟩
  rw [hempty, List.append_nil] at hmem
  exact hout hmem

/-- The check answers whether the graph is acyclic. If it is, every task is visited once, after
its predecessors, and every counter is unset again. -/
theorem check_graph_iff (hg : Checkable heap debug nodes endTask startTasks taskNums)
    (printInfo : Bool) :
    ((∃ s, checkGraphBfs heap debug startTasks taskNums printInfo = .ok (true, s)) ↔
      Acyclic heap nodes) ∧
    (Acyclic heap nodes →
      ∃ s, checkGraphBfs heap debug startTasks taskNums printInfo = .ok (true, s) ∧
        s.visited.Nodup ∧ (∀ t, t ∈ s.visited ↔ t ∈ nodes) ∧
        (∀ l₁ t l₂, s.visited = l₁ ++ t :: l₂ → ∀ u ∈ nodes, t ∈ (heap u).outs → u ∈ l₁) ∧
        ∀ t ∈ nodes, (s.debug t).refCountForCheck = -1) := by
  have hpos := hg.taskNums_pos
  have hrun : checkGraphBfs heap debug startTasks taskNums printInfo =
      loop heap printInfo (taskNums + 1)
        (startTasks.foldl (Check.push heap) ⟨debug, [], "", []⟩) := if_neg (by omega)
  have hnone : (startTasks.foldl (Check.push heap) ⟨debug, [], "", []⟩).visited = [] :=
    (push_fold ⟨debug, [], "", []⟩ startTasks).2.1
  rw [hrun]
  rcases hg.start.loop hg printInfo (taskNums + 1) with
    ⟨s', hok, h', hlen⟩ | ⟨s', m, herror, h', hempty, hm, hlen⟩
  · -- all tasks were visited
    rw [hnone, List.length_nil, Nat.zero_add, ← hg.card] at hlen
    have hall := h'.all_visited hlen
    have hacyclic : Acyclic heap nodes := h'.order.acyclic fun u hu => (hall u).mpr hu
    refine ⟨⟨fun _ => hacyclic, fun _ => ⟨s', hok⟩⟩, fun _ => ⟨s', hok, ?_, hall, ?_, ?_⟩⟩
    · exact (List.nodup_append.mp h'.progress.nodup).1
    · intro l₁ t l₂ hl u hu hmem
      have ht : t ∈ nodes := hg.closed u hu t hmem
      exact h'.order l₁ t l₂ hl u ⟨hu, ht, hmem⟩
    · intro t ht
      exact h'.progress.reset t ((hall t).mpr ht)
  · -- the queue ran empty
    rw [hnone, List.length_nil, Nat.zero_add, ← hg.card] at hlen
    have hcycle := h'.not_acyclic hg hempty (by omega)
    refine ⟨⟨?_, fun hbad => absurd hbad hcycle⟩, fun hbad => absurd hbad hcycle⟩
    intro hbad
    obtain ⟨s, hok⟩ := hbad
    rw [herror] at hok
    cases hok

end

namespace Example

def fields (refCount : Int) (successorTasks : List TaskId) (verticalTask : Option TaskId) : Task :=
  { Task.newAceMesh ⟨false, 0⟩ with
    refCount := refCount, successorTasks := successorTasks, verticalTask := verticalTask }

/-- A task with two successors, which the end task waits for. -/
def heap : Heap
  | 0 => fields 0 [2] (some 1)
  | 1 => fields 1 [] (some 3)
  | 2 => fields 1 [] (some 3)
  | _ => fields 2 [] none

def debug (t : TaskId) : DebugFields := ⟨t == 3, -1, 1, t⟩

theorem checkable : Checkable heap debug (Finset.range 4) 3 [0] 3 where
  closed := by decide
  refCount := by decide
  start_nodup := by decide
  mem_start := by
    intro t
    constructor
    · intro ht
      obtain rfl := List.mem_singleton.mp ht
      decide
    · intro ht
      have hfirst : ∀ t ∈ Finset.range 4, (∀ u ∈ Finset.range 4, t ∉ (heap u).outs) → t ∈ [0] := by
        decide
      exact hfirst t ht.1 ht.2
  unset := by decide
  end_mem := by decide
  outs_end := by decide
  before_end := by decide
  taskNums_pos := by decide
  card := by decide

end Example

theorem check_graph_iff_diamond : Acyclic Example.heap (Finset.range 4) :=
  (check_graph_iff Example.checkable true).1.mp ⟨_, rfl⟩

end AceMesh.GraphCheck
