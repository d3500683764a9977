import AceMesh.Flow

/-!
# The invariant of one round

A round is one execution of a graph: from `spawn` to the return of `wait_for_all`. The tasks
are on their way (`Flow`), every one of them leads to the end task, and the end task has
been counted once more than there are edges into it (`endCount`).
-/

open AceMesh.TaskDagGraph AceMesh.Runtime

namespace AceMesh

variable {m : Nat}

/-- What a round needs of the graph it runs. -/
structure Runnable (n : Nat) (nodes : Finset TaskId) (e : TaskId) (h : Heap) : Prop where
  dag : Release.Dag nodes (fun u => (h u).outs) e
  kind : ∀ t ∈ nodes, (h t).isAceMesh = true
  affinity : ∀ t ∈ nodes, 0 ≤ (h t).affinityId ∧ (h t).affinityId < n

theorem Runnable.sameShape {n : Nat} {nodes : Finset TaskId} {e : TaskId} {h h' : Heap}
    (hr : Runnable n nodes e h) (hs : h.SameShape h') : Runnable n nodes e h' where
  dag := hs.outs_fun ▸ hr.dag
  kind := fun t ht => (hs.isAceMesh t).trans (hr.kind t ht)
  affinity := fun t ht => by rw [hs.affinityId]; exact hr.affinity t ht

/-- The invariant of a round over the tasks `nodes` with end task `e`, while `roots` are
still to be spawned. -/
structure Round (nodes : Finset TaskId) (e : TaskId) (roots : List TaskId) (r : Runtime m) :
    Prop where
  runnable : Runnable (m + 1) nodes e r.heap
  inside : ∀ i, (r.pc i).Inside r.heap
  place : ∀ t, roots.count t + r.queued t + r.inHand t + r.starts t =
    if t ∈ nodes ∧ r.pending nodes t = 0 then 1 else 0
  walking : ∀ i t k, (r.pc i).At r.heap t k → t ∈ nodes ∧ r.walked t = k
  running : ∀ i t, (r.pc i).BeforeRestore t → t ∈ nodes
  started : ∀ t ∈ nodes, r.starts t =
    r.walkers t + if r.walked t = (r.outs t).length then 1 else 0
  unstarted : ∀ t, r.starts t = 0 → r.walked t = 0
  finished : ∀ t, r.bodies t + r.finishes t = r.starts t
  count : ∀ t ∈ nodes, r.starts t = 0 → (r.heap t).refCount = r.pending nodes t
  endCount : (r.heap e).refCount = r.pending nodes e + 1
  restored : ∀ t ∈ nodes, (r.heap t).reused = true → r.starts t ≠ 0 →
    (∀ i, ¬ (r.pc i).BeforeRestore t) → (r.heap t).refCount = (r.heap t).backupRef
  order : InOrder nodes r.outs r.log

namespace Round

variable {nodes : Finset TaskId} {e : TaskId} {roots : List TaskId} {r : Runtime m}

/-- How often an object has been counted beyond the edges into it. -/
abbrev excess (nodes : Finset TaskId) (r : Runtime m) (t : TaskId) : Int :=
  (r.heap t).refCount - r.pending nodes t

theorem flow (h : Round nodes e roots r) : Flow nodes (excess nodes r) roots r where
  full := fun _ ht => h.runnable.dag.outs_ne_nil ht
  kind := h.runnable.kind
  inside := h.inside
  place := h.place
  walking := h.walking
  running := h.running
  started := h.started
  unstarted := h.unstarted
  finished := h.finished
  count := h.count
  outside := fun t _ => by unfold excess; omega
  restored := h.restored
  order := h.order

theorem excess_endTask (h : Round nodes e roots r) : excess nodes r e = 1 := by
  have hend := h.endCount
  unfold excess
  omega

theorem of_flow {extra : TaskId → Int} (hflow : Flow nodes extra roots r)
    (hrunnable : Runnable (m + 1) nodes e r.heap) (hextra : extra e = 1) :
    Round nodes e roots r where
  runnable := hrunnable
  inside := hflow.inside
  place := hflow.place
  walking := hflow.walking
  running := hflow.running
  started := hflow.started
  unstarted := hflow.unstarted
  finished := hflow.finished
  count := hflow.count
  endCount := by rw [hflow.outside e hrunnable.dag.sink_notMem, hextra]
  restored := hflow.restored
  order := hflow.order

/-- The end task keeps at least the one count that the wait has added. -/
theorem endTask_kept (h : Round nodes e roots r) {i : Fin (m + 1)} {t succ : TaskId} {k : Nat}
    (hi : (r.pc i).At r.heap t k) (hnext : (r.outs t)[k]? = some succ) (hsucc : succ ∉ nodes) :
    (r.heap succ).refCount ≠ 1 := by
  obtain ⟨hmem, hwalked⟩ := h.walking i t k hi
  have heq : succ = e :=
    (h.runnable.dag.outs_mem t hmem succ (List.mem_of_getElem? hnext)).resolve_left hsucc
  have hpos : 0 < r.pending nodes succ := Release.pending_pos_of_next hmem (by rw [hwalked]; exact hnext)
  have hend := h.endCount
  rw [heq] at hpos ⊢
  omega

/-! ## What the invariant says about one task -/

section Flow

variable (h : Round nodes e roots r)
include h

theorem starts_le (t : TaskId) : r.starts t ≤ 1 := h.flow.starts_le t

theorem mem_of_starts {t : TaskId} (ht : r.starts t ≠ 0) : t ∈ nodes ∧ r.pending nodes t = 0 :=
  h.flow.mem_of_starts ht

theorem mem_of_hand {i : Fin (m + 1)} {t : TaskId} (hi : (r.pc i).hand = some t) :
    t ∈ nodes ∧ r.pending nodes t = 0 ∧ r.starts t = 0 :=
  h.flow.mem_of_hand hi

theorem starts_of_at {i : Fin (m + 1)} {t : TaskId} {k : Nat} (hi : (r.pc i).At r.heap t k) :
    r.starts t = 1 :=
  h.flow.starts_of_at hi

theorem outs_pos {t : TaskId} (ht : t ∈ nodes) : 0 < (r.outs t).length := h.flow.outs_pos ht

theorem at_of_beforeRestore {i : Fin (m + 1)} {t : TaskId} (hi : (r.pc i).BeforeRestore t) :
    (r.pc i).At r.heap t 0 :=
  h.flow.at_of_beforeRestore hi

theorem finished_of_walked {t : TaskId} (ht : r.walked t ≠ 0) : r.finishes t = 1 :=
  h.flow.finished_of_walked ht

theorem at_unique {i j : Fin (m + 1)} {t : TaskId} {k l : Nat} (hi : (r.pc i).At r.heap t k)
    (hj : (r.pc j).At r.heap t l) : i = j :=
  h.flow.at_unique hi hj

theorem finished_of_released {t u : TaskId} (ht : r.pending nodes t = 0) (hu : u ∈ nodes)
    (hmem : t ∈ r.outs u) : .finish u ∈ r.log :=
  h.flow.finished_of_released ht hu hmem

end Flow

/-! ## Steps -/

/-- A step that moves no task out of the round and changes no counter. -/
theorem same (h : Round nodes e roots r) {roots' : List TaskId} {r' : Runtime m}
    (hshape : r.heap.SameShape r'.heap)
    (hcount : ∀ t, (r'.heap t).refCount = (r.heap t).refCount) (hlog : r'.log = r.log)
    (hplace : ∀ t, roots'.count t + r'.queued t + r'.inHand t =
      roots.count t + r.queued t + r.inHand t)
    (hat : ∀ t k, ∀ i, (r'.pc i).At r.heap t k ↔ (r.pc i).At r.heap t k)
    (hbefore : ∀ t, ∀ i, (r'.pc i).BeforeRestore t ↔ (r.pc i).BeforeRestore t)
    (hbody : ∀ t, ∀ i, r'.pc i = .body t ↔ r.pc i = .body t)
    (hin : ∀ i, (r'.pc i).Inside r'.heap) : Round nodes e roots' r' :=
  of_flow (h.flow.same hshape hcount hlog hplace hat hbefore hbody hin)
    (h.runnable.sameShape hshape) h.excess_endTask

theorem quiet (h : Round nodes e roots r) {i : Fin (m + 1)} {h' : Heap} {p : Pc}
    (hshape : r.heap.SameShape h') (hcount : ∀ t, (h' t).refCount = (r.heap t).refCount)
    (halike : (r.pc i).Alike r.heap p) (hin : p.Inside r.heap) :
    Round nodes e roots ((r.setHeap h').setPc i p) :=
  of_flow (h.flow.quiet hshape hcount halike hin) (h.runnable.sameShape hshape) h.excess_endTask

theorem spawnRoot {t : TaskId} (h : Round nodes e (t :: roots) r) (j : Fin (m + 1)) :
    Round nodes e roots (r.localSpawn j t) :=
  of_flow (h.flow.spawnRoot j) h.runnable h.excess_endTask

theorem turn (h : Round nodes e roots r) {i : Fin (m + 1)} {r' : Runtime m} (ht : Turn r i r') :
    Round nodes e roots r' :=
  of_flow (h.flow.turn ht fun _ _ _ hi hnext hsucc => h.endTask_kept hi hnext hsucc)
    (h.runnable.sameShape ht.shape) h.excess_endTask

end Round

end AceMesh
