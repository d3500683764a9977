import AceMesh.Scheduler

/-!
# What one step of a thread does

A step touches the runtime in four ways: the counter of one task, the queue of one
scheduler, the position of the thread, the log. `Turn` lists the kinds of steps by what
they do to the quantities an invariant counts: the released tasks in hand, the edges a
thread still has to walk, the bodies that run. `threadStep_turn` is the only place where
the definition of a step is unfolded.
-/

namespace AceMesh

open TaskDagGraph

/-! ## The shape of the heap -/

/-- Only counters and the deletion mark differ. -/
def Heap.SameShape (h h' : Heap) : Prop :=
  ∀ t, h' t = { h t with refCount := (h' t).refCount, deleted := (h' t).deleted }

namespace Heap.SameShape

variable {h h' : Heap}

theorem refl (h : Heap) : h.SameShape h := fun _ => rfl

theorem trans {h'' : Heap} (hs : h.SameShape h') (hs' : h'.SameShape h'') :
    h.SameShape h'' := by
  intro t
  rw [hs' t, hs t]

theorem symm (hs : h.SameShape h') : h'.SameShape h := by
  intro t
  rw [hs t]

theorem successorTasks (hs : h.SameShape h') (t : TaskId) :
    (h' t).successorTasks = (h t).successorTasks := by rw [hs t]

theorem verticalTask (hs : h.SameShape h') (t : TaskId) :
    (h' t).verticalTask = (h t).verticalTask := by rw [hs t]

theorem isAceMesh (hs : h.SameShape h') (t : TaskId) :
    (h' t).isAceMesh = (h t).isAceMesh := by rw [hs t]

theorem affinityId (hs : h.SameShape h') (t : TaskId) :
    (h' t).affinityId = (h t).affinityId := by rw [hs t]

theorem reused (hs : h.SameShape h') (t : TaskId) : (h' t).reused = (h t).reused := by rw [hs t]

theorem stored (hs : h.SameShape h') (t : TaskId) : (h' t).stored = (h t).stored := by rw [hs t]

theorem backupRef (hs : h.SameShape h') (t : TaskId) :
    (h' t).backupRef = (h t).backupRef := by rw [hs t]

theorem outs (hs : h.SameShape h') (t : TaskId) : (h' t).outs = (h t).outs := by
  rw [Task.outs, Task.outs, hs.successorTasks, hs.verticalTask]

theorem outs_fun (hs : h.SameShape h') : (fun t => (h' t).outs) = fun t => (h t).outs :=
  funext hs.outs

theorem stage (hs : h.SameShape h') (p : Pc) : p.stage h' = p.stage h := by
  unfold Pc.stage
  split
  all_goals first | rfl | rw [hs.successorTasks]

theorem at_iff (hs : h.SameShape h') (t : TaskId) (k : Nat) (p : Pc) :
    p.At h' t k ↔ p.At h t k := by
  unfold Pc.At
  rw [hs.stage, hs.outs]

theorem active_iff (hs : h.SameShape h') (t : TaskId) (p : Pc) :
    p.Active h' t ↔ p.Active h t :=
  exists_congr fun k => hs.at_iff t k p

end Heap.SameShape

/-- A change of one object's counter or deletion mark. -/
theorem Heap.sameShape_modify (h : Heap) (t : TaskId) (f : Task → Task)
    (hf : f (h t) = { h t with refCount := (f (h t)).refCount, deleted := (f (h t)).deleted }) :
    h.SameShape (h.modify t f) := by
  intro u
  rw [Heap.modify_apply]
  split
  · rename_i hu
    subst hu
    exact hf
  · rfl

theorem Heap.sameShape_decrement (h : Heap) (t : TaskId) : h.SameShape (h.decrementRefCount t) :=
  h.sameShape_modify t _ rfl

theorem Heap.sameShape_increment (h : Heap) (t : TaskId) : h.SameShape (h.incrementRefCount t) :=
  h.sameShape_modify t _ rfl

/-- `if (get_reused_flag()) restore_ref_count()`. -/
theorem Heap.sameShape_restore (h : Heap) (t : TaskId) :
    h.SameShape (if (h t).reused then h.restoreRefCount t else h) := by
  split
  · exact h.sameShape_modify t _ rfl
  · exact Heap.SameShape.refl h

/-- `if (!get_reused_flag()) delete`. -/
theorem Heap.sameShape_delete (h : Heap) (t : TaskId) :
    h.SameShape (if (h t).reused then h else h.delete t) := by
  split
  · exact Heap.SameShape.refl h
  · exact h.sameShape_modify t _ rfl

theorem Heap.refCount_decrement (h : Heap) (s t : TaskId) :
    (h.decrementRefCount s t).refCount = (h t).refCount - if t = s then 1 else 0 := by
  rw [Heap.decrementRefCount, Heap.modify_apply]
  split <;> simp

theorem Heap.refCount_increment (h : Heap) (s t : TaskId) :
    (h.incrementRefCount s t).refCount = (h t).refCount + if t = s then 1 else 0 := by
  rw [Heap.incrementRefCount, Heap.modify_apply]
  split <;> simp

theorem Heap.refCount_of_delete (h : Heap) (s t : TaskId) :
    (h.delete s t).refCount = (h t).refCount := by
  rw [Heap.delete, Heap.modify_apply]
  split <;> rfl

theorem Heap.refCount_delete (h : Heap) (s t : TaskId) :
    ((if (h s).reused then h else h.delete s) t).refCount = (h t).refCount := by
  split
  · rfl
  · exact h.refCount_of_delete s t

theorem Heap.refCount_restore (h : Heap) (s t : TaskId) :
    ((if (h s).reused then h.restoreRefCount s else h) t).refCount =
      if t = s ∧ (h s).reused = true then (h s).backupRef else (h t).refCount := by
  by_cases hr : (h s).reused = true
  · rw [if_pos hr, Heap.restoreRefCount, Heap.modify_apply]
    by_cases ht : t = s
    · subst ht; simp [hr]
    · simp [ht]
  · rw [if_neg hr]
    simp [hr]

theorem Heap.deleted_decrement (h : Heap) (s t : TaskId) :
    (h.decrementRefCount s t).deleted = (h t).deleted := by
  rw [Heap.decrementRefCount, Heap.modify_apply]
  split <;> rfl

theorem Heap.deleted_increment (h : Heap) (s t : TaskId) :
    (h.incrementRefCount s t).deleted = (h t).deleted := by
  rw [Heap.incrementRefCount, Heap.modify_apply]
  split <;> rfl

theorem Heap.deleted_restore (h : Heap) (s t : TaskId) :
    ((if (h s).reused then h.restoreRefCount s else h) t).deleted = (h t).deleted := by
  split
  · rw [Heap.restoreRefCount, Heap.modify_apply]
    split <;> rfl
  · rfl

/-! ## The kinds of steps -/

/-- The index of a walk is inside the successor list. -/
def Pc.Inside (h : Heap) : Pc → Prop
  | .loop t k => k ≤ (h t).successorTasks.length
  | .push t k _ => k < (h t).successorTasks.length
  | _ => True

/-- The counter of `t` has not been restored in this execution of `t`. -/
def Pc.BeforeRestore (t : TaskId) (p : Pc) : Prop := p = .body t ∨ p = .restore t

instance (t : TaskId) (p : Pc) : Decidable (p.BeforeRestore t) :=
  inferInstanceAs (Decidable (_ ∨ _))

/-- The object that the thread works at. -/
def Pc.object : Pc → Option TaskId
  | .next => none
  | .hold t => some t
  | .body t => some t
  | .restore t => some t
  | .loop t _ => some t
  | .push t _ _ => some t
  | .vert t => some t
  | .ret t _ => some t

/-- Two positions with the same task in hand and the same edges to walk, outside of
bodies. -/
structure Pc.Alike (h : Heap) (p p' : Pc) : Prop where
  object : ∀ t, p'.object = some t → p.object = some t ∨ p.hand = some t
  hand : p'.hand = p.hand
  walks : ∀ t k, p'.At h t k ↔ p.At h t k
  outside : ∀ t, ¬ p.BeforeRestore t
  outside' : ∀ t, ¬ p'.BeforeRestore t

theorem Heap.SameShape.inside {h h' : Heap} (hs : h.SameShape h') (p : Pc) :
    p.Inside h' ↔ p.Inside h := by
  cases p <;> simp only [Pc.Inside, hs.successorTasks]

namespace Runtime

variable {m : Nat}

/-- The steps of thread `i`. The queue that a task is popped from may be any. -/
inductive Turn (r : Runtime m) (i : Fin (m + 1)) : Runtime m → Prop
  | quiet {h : Heap} {p : Pc} (shape : r.heap.SameShape h)
      (refCount : ∀ t, (h t).refCount = (r.heap t).refCount)
      (deleted : ∀ t, (r.heap t).reused = true → (h t).deleted = (r.heap t).deleted)
      (frame : ∀ t, (r.pc i).object ≠ some t → h t = r.heap t)
      (alike : (r.pc i).Alike r.heap p) (inside : p.Inside r.heap) :
      Turn r i ((r.setHeap h).setPc i p)
  | pop {j : Fin (m + 1)} {t : TaskId} {rest : List TaskId} (pc : r.pc i = .next)
      (queue : r.queue j = t :: rest) :
      Turn r i { r.setPc i (.hold t) with queue := Function.update r.queue j rest }
  | skip {t : TaskId} (pc : r.pc i = .hold t) (kind : (r.heap t).isAceMesh = false) :
      Turn r i (r.setPc i (.ret t none))
  | start {t : TaskId} (pc : r.pc i = .hold t) (kind : (r.heap t).isAceMesh = true) :
      Turn r i ((r.setPc i (.body t)).record (.start t))
  | finish {t : TaskId} (pc : r.pc i = .body t) :
      Turn r i ((r.setPc i (.restore t)).record (.finish t))
  | restore {t : TaskId} (pc : r.pc i = .restore t) :
      Turn r i ((r.setHeap (if (r.heap t).reused then r.heap.restoreRefCount t
        else r.heap)).setPc i (.loop t 0))
  | walk {t succ : TaskId} {k : Nat} {p : Pc} (stage : (r.pc i).stage r.heap = some (t, k))
      (next : (r.outs t)[k]? = some succ) (hand : (r.pc i).hand = none)
      (outside : ∀ u, ¬ (r.pc i).BeforeRestore u) (outside' : ∀ u, ¬ p.BeforeRestore u)
      (hand' : p.hand = if (r.heap succ).refCount - 1 = 0 then some succ else none)
      (walks' : ∀ u j, p.At r.heap u j ↔ u = t ∧ j = k + 1 ∧ k + 1 < (r.outs t).length)
      (inside : p.Inside r.heap) (object : p.object = some t) :
      Turn r i ((r.walkEdge t succ).setPc i p)
  | push {t succ : TaskId} {k : Nat} {j : Fin (m + 1)} (pc : r.pc i = .push t k succ) :
      Turn r i ((r.localSpawn j succ).setPc i (.loop t (k + 1)))

end Runtime

theorem Pc.not_at_of_stage {h : Heap} {p : Pc} (hs : p.stage h = none) (t : TaskId) (k : Nat) :
    ¬ p.At h t k := by
  rintro ⟨hk, -⟩
  simp [hs] at hk

theorem Pc.at_iff {h : Heap} {p : Pc} {u : TaskId} {k : Nat} (hs : p.stage h = some (u, k))
    (t : TaskId) (j : Nat) : p.At h t j ↔ t = u ∧ j = k ∧ k < (h u).outs.length := by
  constructor
  · rintro ⟨hj, hlt⟩
    rw [hs] at hj
    cases hj
    exact ⟨rfl, rfl, hlt⟩
  · rintro ⟨rfl, rfl, hlt⟩
    exact ⟨hs, hlt⟩

theorem Task.length_outs (o : Task) :
    o.outs.length = o.successorTasks.length + if o.verticalTask = none then 0 else 1 := by
  cases hv : o.verticalTask <;> simp [Task.outs, hv]

theorem Task.outs_getElem?_succ {o : Task} {k : Nat} {s : TaskId}
    (hs : o.successorTasks[k]? = some s) : o.outs[k]? = some s := by
  rw [Task.outs, List.getElem?_append_left (List.getElem?_eq_some_iff.mp hs).1]
  exact hs

theorem Task.outs_getElem?_vertical {o : Task} {s : TaskId} (hs : o.verticalTask = some s) :
    o.outs[o.successorTasks.length]? = some s := by
  simp [Task.outs, hs]

namespace Runtime

variable {m : Nat} {r r' : Runtime m} {i : Fin (m + 1)}

/-- A step that moves the thread and nothing else. -/
theorem Turn.quiet_pc {p : Pc} (hsame : (r.pc i).Alike r.heap p) (hin : p.Inside r.heap) :
    Turn r i (r.setPc i p) :=
  Turn.quiet (Heap.SameShape.refl r.heap) (fun _ => rfl) (fun _ _ => rfl) (fun _ _ => rfl) hsame hin

theorem Turn.stay (hpc : r.pc i = .next) : Turn r i r := by
  have hself : r.setPc i .next = r := by
    unfold setPc
    rw [← hpc, Function.update_eq_self]
  have hturn : Turn r i (r.setPc i .next) := by
    refine Turn.quiet_pc ?_ trivial
    rw [hpc]
    exact ⟨by simp [Pc.object], rfl, fun _ _ => Iff.rfl, by simp [Pc.BeforeRestore],
      by simp [Pc.BeforeRestore]⟩
  rwa [hself] at hturn

/-- An edge from the list of successors is walked. -/
theorem Turn.walk_list {t succ : TaskId} {k : Nat} {p : Pc} (hpc : r.pc i = .loop t k)
    (hnext : (r.heap t).successorTasks[k]? = some succ)
    (hhand : p.hand = if (r.heap succ).refCount - 1 = 0 then some succ else none)
    (hout : ∀ u, ¬ p.BeforeRestore u)
    (hat : ∀ u j, p.At r.heap u j ↔ u = t ∧ j = k + 1 ∧ k + 1 < (r.outs t).length)
    (hin : p.Inside r.heap) (hobject : p.object = some t) :
    Turn r i ((r.walkEdge t succ).setPc i p) :=
  Turn.walk (by rw [hpc]; rfl) (Task.outs_getElem?_succ hnext) (by rw [hpc]; rfl)
    (by simp [hpc, Pc.BeforeRestore]) hout hhand hat hin hobject

/-- The edge to the vertical task is walked; it is the last one. -/
theorem Turn.walk_vertical {t succ : TaskId} {v : Option TaskId} (hpc : r.pc i = .vert t)
    (hnext : (r.heap t).verticalTask = some succ)
    (hhand : v = if (r.heap succ).refCount - 1 = 0 then some succ else none) :
    Turn r i ((r.walkEdge t succ).setPc i (.ret t v)) := by
  refine Turn.walk (by rw [hpc]; rfl) (Task.outs_getElem?_vertical hnext) (by rw [hpc]; rfl)
    (by simp [hpc, Pc.BeforeRestore]) (by simp [Pc.BeforeRestore]) hhand (fun u j => ?_) trivial rfl
  apply iff_of_false (Pc.not_at_of_stage rfl u j)
  rintro ⟨-, -, hlt⟩
  have hlen := Task.length_outs (r.heap t)
  rw [hnext] at hlen
  simp only [Runtime.outs, hlen, reduceCtorEq, if_false] at hlt
  omega

/-- The object that has been executed is deleted, or is stored for reuse. -/
theorem Turn.retire {t : TaskId} {v : Option TaskId} {p : Pc} (hpc : r.pc i = .ret t v)
    (halike : (r.pc i).Alike r.heap p) (hin : p.Inside r.heap) :
    Turn r i ((r.setHeap (if (r.heap t).reused then r.heap else r.heap.delete t)).setPc i p) := by
  refine Turn.quiet (r.heap.sameShape_delete t) (r.heap.refCount_delete t) (fun u hu => ?_)
    (fun u hu => ?_) halike hin
  · split
    · rfl
    · rename_i hr
      rw [Heap.delete, Heap.modify_of_ne]
      rintro rfl
      exact hr hu
  · have hut : u ≠ t := by
      rintro rfl
      exact hu (by rw [hpc]; rfl)
    split
    · rfl
    · exact Heap.modify_of_ne r.heap hut _

/-- Every step of a thread is one of these. -/
theorem ThreadStep.toTurn (hin : (r.pc i).Inside r.heap) (h : ThreadStep r i r') :
    Turn r i r' := by
  cases h with
  | wait pc => exact Turn.stay pc
  | pop pc queue => exact Turn.pop pc queue
  | start pc kind => exact Turn.start pc kind
  | skip pc kind => exact Turn.skip pc kind
  | finish pc => exact Turn.finish pc
  | restore pc => exact Turn.restore pc
  | push pc spawned =>
      obtain ⟨j, rfl⟩ := spawnToId_localSpawn spawned
      exact Turn.push pc
  | release pc next zero =>
      exact Turn.walk_list pc next (by rw [if_pos zero]; rfl) (by simp [Pc.BeforeRestore])
        (Pc.at_iff rfl) (List.getElem?_eq_some_iff.mp next).1 rfl
  | walk pc next nonzero =>
      exact Turn.walk_list pc next (by rw [if_neg nonzero]; rfl) (by simp [Pc.BeforeRestore])
        (Pc.at_iff rfl) (List.getElem?_eq_some_iff.mp next).1 rfl
  | releaseVertical pc next zero =>
      exact Turn.walk_vertical pc next (by rw [if_pos zero])
  | walkVertical pc next nonzero =>
      exact Turn.walk_vertical pc next (by rw [if_neg nonzero])
  | @arrive t k pc last =>
      -- the end of the list: the walk goes on with the vertical task at the same index
      have hk : k = (r.heap t).successorTasks.length := by
        have hge := List.getElem?_eq_none_iff.mp last
        rw [pc] at hin
        exact Nat.le_antisymm hin hge
      have hstage : (r.pc i).stage r.heap = some (t, k) := by rw [pc]; rfl
      refine Turn.quiet_pc ⟨fun u hu => Or.inl (by rw [pc]; exact hu), by rw [pc]; rfl,
        fun u j => ?_, by simp [pc, Pc.BeforeRestore], by simp [Pc.BeforeRestore]⟩ trivial
      rw [Pc.at_iff hstage, Pc.at_iff (u := t) (k := (r.heap t).successorTasks.length) rfl, hk]
  | @back t pc next =>
      have hstage : (r.pc i).stage r.heap = some (t, (r.heap t).successorTasks.length) := by
        rw [pc]; rfl
      have hlen := Task.length_outs (r.heap t)
      refine Turn.quiet_pc ⟨fun u hu => Or.inl (by rw [pc]; exact hu), by rw [pc]; rfl,
        fun u j => ?_, by simp [pc, Pc.BeforeRestore], by simp [Pc.BeforeRestore]⟩ trivial
      apply iff_of_false (Pc.not_at_of_stage rfl u j)
      rw [Pc.at_iff hstage]
      rintro ⟨rfl, -, hlt⟩
      simp only [hlen, next, if_true] at hlt
      omega
  | leave pc =>
      refine Turn.retire pc ⟨by simp [Pc.object], by rw [pc]; rfl, fun u j => ?_,
        by simp [pc, Pc.BeforeRestore], by simp [Pc.BeforeRestore]⟩ trivial
      exact iff_of_false (Pc.not_at_of_stage rfl u j) (Pc.not_at_of_stage (by rw [pc]; rfl) u j)
  | leaveFor pc =>
      refine Turn.retire pc ⟨fun u hu => Or.inr (by rw [pc]; exact hu), by rw [pc]; rfl,
        fun u j => ?_, by simp [pc, Pc.BeforeRestore], by simp [Pc.BeforeRestore]⟩ trivial
      exact iff_of_false (Pc.not_at_of_stage rfl u j) (Pc.not_at_of_stage (by rw [pc]; rfl) u j)

theorem threadStep_turn {hit : Bool} (hin : (r.pc i).Inside r.heap)
    (h : r.threadStep i hit = some r') : Turn r i r' :=
  (threadStep_cases h).toTurn hin

/-! ## What no step of a thread touches -/

theorem Turn.shape (h : Turn r i r') : r.heap.SameShape r'.heap := by
  cases h with
  | quiet hshape => exact hshape
  | pop _ _ => exact Heap.SameShape.refl _
  | skip _ _ => exact Heap.SameShape.refl _
  | start _ _ => exact Heap.SameShape.refl _
  | finish _ => exact Heap.SameShape.refl _
  | restore _ => exact r.heap.sameShape_restore _
  | walk => exact r.heap.sameShape_decrement _
  | push _ => exact Heap.SameShape.refl _

theorem Turn.main (h : Turn r i r') : r'.main = r.main := by
  cases h <;> rfl

theorem Turn.graph (h : Turn r i r') : r'.graph = { r.graph with heap := r'.heap } := by
  cases h <;> rfl

theorem Turn.others (h : Turn r i r') {j : Fin (m + 1)} (hj : j ≠ i) : r'.pc j = r.pc j := by
  have hset : ∀ (r₁ : Runtime m) p, (r₁.setPc i p).pc j = r₁.pc j :=
    fun r₁ p => Function.update_of_ne hj _ _
  cases h <;> exact hset _ _

/-- Only objects that are not reused are deleted. -/
theorem Turn.deleted (h : Turn r i r') {t : TaskId} (ht : (r.heap t).reused = true) :
    (r'.heap t).deleted = (r.heap t).deleted := by
  cases h with
  | quiet _ _ hdel => exact hdel t ht
  | pop _ _ => rfl
  | skip _ _ => rfl
  | start _ _ => rfl
  | finish _ => rfl
  | @restore u _ => exact r.heap.deleted_restore u t
  | @walk u succ => exact r.heap.deleted_decrement succ t
  | push _ => rfl

/-! ## The main thread -/

/-- All that a step of a thread does, the main thread included. The queue that a root is
pushed on may be any. -/
inductive Move (r : Runtime m) : Fin (m + 1) → Runtime m → Prop
  | worker {i : Fin (m + 1)} {r' : Runtime m} (hi : i ≠ 0) (turn : Turn r i r') : Move r i r'
  | root {e t : TaskId} {roots : List TaskId} (main : r.main = .spawn e (t :: roots))
      (j : Fin (m + 1)) : Move r 0 { r.localSpawn j t with main := .spawn e roots }
  | enter {e : TaskId} (main : r.main = .spawn e []) :
      Move r 0 { r.setPc 0 .next with main := .test e }
  | test {e : TaskId} (main : r.main = .test e) :
      Move r 0 { r with main := if 1 < (r.heap e).refCount then .run e else .left e }
  | run {e : TaskId} {r' : Runtime m} (main : r.main = .run e) (turn : Turn r 0 r') :
      Move r 0 r'
  | turnEnd {e : TaskId} {r' : Runtime m} (main : r.main = .run e) (turn : Turn r 0 r') :
      Move r 0 { r' with main := .test e }
  | leave {e : TaskId} (main : r.main = .left e) :
      Move r 0 { r.setHeap (if (r.heap e).reused then r.heap else r.heap.delete e) with
        main := .returned e }
  | back {e : TaskId} (main : r.main = .returned e) :
      Move r 0 { r with
        graph := ({ r.graph with
          heap := if (r.heap e).reused then r.heap.restoreRefCount e else r.heap }).resetTaskGraph
        main := .prog }

theorem step_move {hit : Bool} (hin : ∀ i, (r.pc i).Inside r.heap)
    (h : r.step i hit = some r') : Move r i r' := by
  obtain ⟨rfl, hmain⟩ | ⟨hi, hthread⟩ := step_cases h
  · cases hmain with
    | root main spawned =>
        obtain ⟨j, rfl⟩ := spawnToId_localSpawn spawned
        exact .root main j
    | enter main => exact .enter main
    | test main => exact .test main
    | run main turn _ => exact .run main (turn.toTurn (hin 0))
    | turnEnd main turn _ => exact .turnEnd main (turn.toTurn (hin 0))
    | leave main => exact .leave main
    | back main => exact .back main
  · exact .worker hi (hthread.toTurn (hin i))

theorem Move.shape (h : Move r i r') : r.heap.SameShape r'.heap := by
  cases h with
  | worker _ turn => exact turn.shape
  | root _ _ => exact Heap.SameShape.refl _
  | enter _ => exact Heap.SameShape.refl _
  | test _ => exact Heap.SameShape.refl _
  | run _ turn => exact turn.shape
  | turnEnd _ turn => exact turn.shape
  | leave _ => exact r.heap.sameShape_delete _
  | back _ => exact r.heap.sameShape_restore _

theorem Move.others (h : Move r i r') {j : Fin (m + 1)} (hj : j ≠ i) : r'.pc j = r.pc j := by
  cases h with
  | worker _ turn => exact turn.others hj
  | root _ _ => rfl
  | enter _ => exact Function.update_of_ne hj ..
  | test _ => rfl
  | run _ turn => exact turn.others hj
  | turnEnd _ turn => exact turn.others hj
  | leave _ => rfl
  | back _ => rfl

/-- Only the program calls `spawn_and_wait`. -/
theorem Move.prog (h : Move r i r') (hm : r.main = .prog) : r'.main = .prog := by
  cases h with
  | worker _ turn => exact turn.main.trans hm
  | root hm' _ => rw [hm] at hm'; cases hm'
  | enter hm' => rw [hm] at hm'; cases hm'
  | test hm' => rw [hm] at hm'; cases hm'
  | run hm' _ => rw [hm] at hm'; cases hm'
  | turnEnd hm' _ => rw [hm] at hm'; cases hm'
  | leave hm' => rw [hm] at hm'; cases hm'
  | back _ => rfl

/-- Once the round is over the main thread returns. -/
theorem Move.of_returned {e : TaskId} (h : Move r 0 r') (hm : r.main = .returned e) :
    r' = { r with
      graph := ({ r.graph with
        heap := if (r.heap e).reused then r.heap.restoreRefCount e else r.heap }).resetTaskGraph
      main := .prog } := by
  cases h with
  | worker hi _ => exact absurd rfl hi
  | root hm' _ => rw [hm] at hm'; cases hm'
  | enter hm' => rw [hm] at hm'; cases hm'
  | test hm' => rw [hm] at hm'; cases hm'
  | run hm' _ => rw [hm] at hm'; cases hm'
  | turnEnd hm' _ => rw [hm] at hm'; cases hm'
  | leave hm' => rw [hm] at hm'; cases hm'
  | back hm' =>
      rw [hm] at hm'
      cases hm'
      rfl

theorem Turn.log (h : Turn r i r') : ∃ l, r'.log = r.log ++ l := by
  cases h with
  | quiet _ _ _ _ _ _ => exact ⟨[], (List.append_nil _).symm⟩
  | pop _ _ => exact ⟨[], (List.append_nil _).symm⟩
  | skip _ _ => exact ⟨[], (List.append_nil _).symm⟩
  | start _ _ => exact ⟨_, rfl⟩
  | finish _ => exact ⟨_, rfl⟩
  | restore _ => exact ⟨[], (List.append_nil _).symm⟩
  | walk _ _ _ _ _ _ _ _ _ => exact ⟨_, rfl⟩
  | push _ => exact ⟨[], (List.append_nil _).symm⟩

theorem Move.log (h : Move r i r') : ∃ l, r'.log = r.log ++ l := by
  cases h with
  | worker _ turn => exact turn.log
  | root _ _ => exact ⟨[], (List.append_nil _).symm⟩
  | enter _ => exact ⟨[], (List.append_nil _).symm⟩
  | test _ => exact ⟨[], (List.append_nil _).symm⟩
  | run _ turn => exact turn.log
  | turnEnd _ turn => exact turn.log
  | leave _ => exact ⟨[], (List.append_nil _).symm⟩
  | back _ => exact ⟨[], (List.append_nil _).symm⟩

end Runtime

end AceMesh
