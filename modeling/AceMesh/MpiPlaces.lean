import AceMesh.Lib.Places
import AceMesh.MpiTurn

/-!
# Where the tasks are

The root list, the queues and the hands of the threads are the places of a task. `view` says
which tasks a thread has in its hand and how far they are; a task that has been queued once
more is no longer in the hand, although the thread still reads its fields. `Placed` is kept by
every step.
-/

namespace AceMesh.MpiStrategy

open Suspend (Act Stage Shown)

variable {m : Nat}

inductive Place (m : Nat)
  | root
  | queue (q : Queue m)
  | hand (i : Thread m)
  deriving DecidableEq

namespace Pc

/-- The tasks in the hand of thread `i`, with their stages. -/
def view (i : Thread m) (suspended : TaskId → Bool) (h : Heap) :
    Pc → List (TaskId × Stage (Thread m))
  | .next | .clear | .poll | .pop => []
  | .hold t => [(t, .ready)]
  | .body t => [(t, .started i)]
  | .restore t | .test t => [(t, .stopped i (suspended t))]
  | .loop t k => [(t, .walking i k)]
  | .push t k succ => [(t, .walking i (k + 1)), (succ, .ready)]
  | .vert t => [(t, .walking i (h t).successorTasks.length)]
  | .ret t v => (if suspended t then [] else [(t, .walking i (h t).outs.length)]) ++
      v.toList.map fun succ => (succ, .ready)

/-- The index of a walk is inside the successor list. -/
def Inside (h : Heap) : Pc → Prop
  | .loop t k => k ≤ (h t).successorTasks.length
  | .push t k _ => k < (h t).successorTasks.length
  | _ => True

theorem view_searching {p : Pc} (h : p.searching = true) (i : Thread m)
    (suspended : TaskId → Bool) (heap : Heap) : p.view i suspended heap = [] := by
  cases p <;> first | rfl | cases h

theorem inside_searching {p : Pc} (h : p.searching = true) (heap : Heap) : p.Inside heap := by
  cases p <;> trivial

theorem view_shape {h h' : Heap} (hs : h.SameShape h') (i : Thread m)
    (suspended : TaskId → Bool) (p : Pc) : p.view i suspended h' = p.view i suspended h := by
  cases p <;> simp only [Pc.view, hs.successorTasks, hs.outs]

theorem inside_shape {h h' : Heap} (hs : h.SameShape h') (p : Pc) : p.Inside h' ↔ p.Inside h := by
  cases p <;> simp only [Pc.Inside, hs.successorTasks]

end Pc

namespace Kernels

/-- What is in a place. The threads in `old` are still at a task of an earlier graph. -/
def content (b : Strategy) (old : Thread m → Bool) (s : Kernels m) :
    Place m → List (TaskId × Stage (Thread m))
  | .root => s.main.roots.map fun t => (t, .ready)
  | .queue q => (s.queue q).map fun t => (t, .ready)
  | .hand i => if old i then [] else (s.pc i).view i (s.isSuspended b) s.heap

theorem content_of_hand {b : Strategy} {old : Thread m → Bool} {s : Kernels m} {i : Thread m}
    (hold : old i = false) :
    s.content b old (.hand i) = (s.pc i).view i (s.isSuspended b) s.heap := by
  simp [content, hold]

/-- Thread `i` gets to the position `p`; apart from that and from the queues nothing changes that
the places depend on. -/
structure Arrives (s : Kernels m) (i : Thread m) (p : Pc) (s' : Kernels m) : Prop where
  shape : s.heap.SameShape s'.heap
  blocking : s'.blocking = s.blocking
  suspend : s'.suspend = s.suspend
  pc : s'.pc = Function.update s.pc i p
  roots : s'.main.roots = s.main.roots

namespace Arrives

theorem suspended {s s' : Kernels m} {i : Thread m} {p : Pc} (h : s.Arrives i p s')
    (b : Strategy) : s'.isSuspended b = s.isSuspended b :=
  isSuspended_congr h.blocking h.suspend b

theorem of_setPc (s : Kernels m) (i : Thread m) (p : Pc) : s.Arrives i p (s.setPc i p) :=
  ⟨Heap.SameShape.refl _, rfl, rfl, rfl, rfl⟩

theorem of_retire (b : Strategy) (s : Kernels m) (i : Thread m) (t : TaskId)
    (v : Option TaskId) : s.Arrives i (afterReturn v) (s.retire b i t v) := by
  have hspec := s.retire_spec b i t v
  exact ⟨hspec.shape, hspec.blocking, hspec.suspend, hspec.pc, by rw [hspec.main]⟩

/-- The content after a step that leaves the queues alone. -/
theorem content {b : Strategy} {old : Thread m → Bool} {s s' : Kernels m} {i : Thread m}
    {p : Pc} (h : s.Arrives i p s') (hold : old i = false) (hqueue : s'.queue = s.queue) :
    s'.content b old =
      Function.update (s.content b old) (.hand i) (p.view i (s.isSuspended b) s.heap) := by
  funext place
  cases place with
  | root =>
      rw [Function.update_of_ne (by simp)]
      simp only [Kernels.content, h.roots]
  | queue q =>
      rw [Function.update_of_ne (by simp)]
      simp only [Kernels.content, hqueue]
  | hand j =>
      simp only [Kernels.content, h.pc, h.suspended b, Pc.view_shape h.shape]
      by_cases hj : j = i
      · subst hj
        simp [hold]
      · rw [Function.update_of_ne hj, Function.update_of_ne (by simpa using hj)]
        rfl

/-- The content after a step that changes one queue. -/
theorem content_queue {b : Strategy} {old : Thread m → Bool} {s s' : Kernels m} {i : Thread m}
    {p : Pc} {q : Queue m} {l : List TaskId} (h : s.Arrives i p s') (hold : old i = false)
    (hqueue : s'.queue = Function.update s.queue q l) :
    s'.content b old = Function.update (Function.update (s.content b old) (.hand i)
      (p.view i (s.isSuspended b) s.heap)) (.queue q) (l.map fun t => (t, .ready)) := by
  have hrest : s.Arrives i p { s' with queue := s.queue } :=
    ⟨h.shape, h.blocking, h.suspend, h.pc, h.roots⟩
  rw [← hrest.content hold rfl]
  funext place
  cases place with
  | root =>
      rw [Function.update_of_ne (by simp)]
      rfl
  | queue q' =>
      simp only [Kernels.content, hqueue]
      by_cases hq : q' = q
      · subst hq
        simp only [Function.update_self]
      · rw [Function.update_of_ne hq, Function.update_of_ne (by simpa using hq)]
        rfl
  | hand j =>
      rw [Function.update_of_ne (by simp)]
      rfl

end Arrives

theorem mem_enqueue {s : Kernels m} {q : Queue m} {t u : TaskId} :
    u ∈ (s.enqueue q t).queue q ↔ u ∈ s.queue q ∨ u = t := by
  simp only [enqueue, setQueue, Function.update_self]
  cases q <;> simp [or_comm]

theorem enqueue_of_ne {s : Kernels m} {q q' : Queue m} (hne : q' ≠ q) (t : TaskId) :
    (s.enqueue q t).queue q' = s.queue q' :=
  Function.update_of_ne hne ..

theorem nodup_enqueue {s : Kernels m} {q : Queue m} {t : TaskId} (h : (s.queue q).Nodup)
    (ht : t ∉ s.queue q) : ((s.enqueue q t).queue q).Nodup := by
  simp only [enqueue, setQueue, Function.update_self]
  cases q with
  | own i => exact List.nodup_cons.mpr ⟨ht, h⟩
  | blocking i =>
      rw [List.nodup_append]
      refine ⟨h, List.nodup_singleton t, fun u hu v hv => ?_⟩
      rintro rfl
      exact ht (List.mem_singleton.mp hv ▸ hu)
  | mpi =>
      rw [List.nodup_append]
      refine ⟨h, List.nodup_singleton t, fun u hu v hv => ?_⟩
      rintro rfl
      exact ht (List.mem_singleton.mp hv ▸ hu)

end Kernels

/-- Every released task that is not through is in one place. A task that a thread has queued
once more stays there as long as that thread reads its flag. -/
structure Placed (b : Strategy) (old : Thread m → Bool) (s : Kernels m)
    (stage : TaskId → Stage (Thread m)) : Prop where
  shown : Shown (s.content b old) stage
  nodup : ∀ q, (s.queue q).Nodup
  roots_nodup : s.main.roots.Nodup
  inside : ∀ i, old i = false → (s.pc i).Inside s.heap
  requeued : ∀ i t v, old i = false → s.pc i = .ret t v → s.isSuspended b t = true →
    v = none ∧ ∃ q, q.owner = i ∧ t ∈ s.queue q
  clear : ∀ t, (stage t).finisher ≠ none → s.isSuspended b t = false
  mpi : b = .extraThread → ∀ t j, (stage t).thread = some (.worker j) → s.blocking t = false

namespace Placed

variable {b : Strategy} {old : Thread m → Bool} {s s' : Kernels m}
  {stage stage' : TaskId → Stage (Thread m)} {i : Thread m}

theorem mem_queue {q : Queue m} {t : TaskId} (ht : t ∈ s.queue q) :
    (t, Stage.ready) ∈ s.content b old (.queue q) :=
  List.mem_map.mpr ⟨t, ht, rfl⟩

theorem mem_hand (hold : old i = false) {t : TaskId} {σ : Stage (Thread m)}
    (ht : (t, σ) ∈ (s.pc i).view i (s.isSuspended b) s.heap) :
    (t, σ) ∈ s.content b old (.hand i) := by
  rw [Kernels.content_of_hand hold]
  exact ht

section

variable (h : Placed b old s stage)
include h

theorem of_hand (hold : old i = false) {t : TaskId} {σ : Stage (Thread m)}
    (ht : (t, σ) ∈ (s.pc i).view i (s.isSuspended b) s.heap) : stage t = σ :=
  h.shown.stage_eq (mem_hand hold ht)

theorem of_queue {q : Queue m} {t : TaskId} (ht : t ∈ s.queue q) : stage t = .ready :=
  h.shown.stage_eq (mem_queue ht)

/-- A task in a hand is in no queue. -/
theorem not_queued (hold : old i = false) {t : TaskId} {σ : Stage (Thread m)}
    (ht : (t, σ) ∈ (s.pc i).view i (s.isSuspended b) s.heap) (q : Queue m) : t ∉ s.queue q := by
  intro hq
  have hplace : (Place.hand i : Place m) = .queue q :=
    h.shown.unique (mem_hand hold ht) (mem_queue hq)
  cases hplace

theorem of_view (hold : old i = false) {t : TaskId} {σ : Stage (Thread m)}
    (hview : (s.pc i).view i (s.isSuspended b) s.heap = [(t, σ)]) : stage t = σ :=
  h.of_hand hold (by rw [hview]; exact List.mem_singleton_self _)

/-- The flag of a task whose edges are walked is clear. -/
theorem clear_of_walking {t : TaskId} {k : Nat} (ht : stage t = .walking i k) :
    s.isSuspended b t = false :=
  h.clear t (by rw [ht]; exact Option.some_ne_none i)

/-- With `EXTRA_THREAD` the thread of a task that is at work already may go on with it. -/
theorem ordinary {t : TaskId} {σ : Stage (Thread m)} (ht : stage t = σ)
    (hσ : σ.thread = some i) (hb : b = .extraThread) (j : Fin (m + 1))
    (hj : some i = some (.worker j)) : s.blocking t = false :=
  h.mpi hb t j (by rw [ht, hσ, hj])

/-- While a thread is in the body of a task, no thread reads its flag. -/
theorem not_reading {t : TaskId} (ht : stage t = .started i) {j : Thread m}
    (hold : old j = false) (v : Option TaskId) :
    s.pc j ≠ .restore t ∧ s.pc j ≠ .test t ∧ s.pc j ≠ .ret t v := by
  refine ⟨fun hp => ?_, fun hp => ?_, fun hp => ?_⟩
  · have hstopped := h.of_hand hold (by rw [hp]; exact List.mem_cons_self)
    rw [ht] at hstopped
    cases hstopped
  · have hstopped := h.of_hand hold (by rw [hp]; exact List.mem_cons_self)
    rw [ht] at hstopped
    cases hstopped
  · by_cases hsuspended : s.isSuspended b t = true
    · obtain ⟨-, q, -, hq⟩ := h.requeued j t v hold hp hsuspended
      have hready := h.of_queue hq
      rw [ht] at hready
      cases hready
    · have hwalking := h.of_hand hold (t := t) (σ := .walking j (s.heap t).outs.length) (by
        rw [hp]
        simp [Pc.view, hsuspended])
      rw [ht] at hwalking
      cases hwalking

end

/-- A step of thread `i` to the position `p`, as far as the places are concerned. -/
theorem update (h : Placed b old s stage) {p : Pc} (harr : s.Arrives i p s')
    (hin : p.Inside s.heap) (hshown : Shown (s'.content b old) stage')
    (hnodup : ∀ q, (s'.queue q).Nodup)
    (hqueue : ∀ q t, q.owner ≠ i → t ∈ s.queue q → t ∈ s'.queue q)
    (hret : ∀ t v, p = .ret t v → s.isSuspended b t = true →
      v = none ∧ ∃ q, q.owner = i ∧ t ∈ s'.queue q)
    (hclear : ∀ t, stage' t ≠ stage t → (stage' t).finisher ≠ none → s.isSuspended b t = false)
    (hmpi : b = .extraThread → ∀ t j, stage' t ≠ stage t →
      (stage' t).thread = some (.worker j) → s.blocking t = false) : Placed b old s' stage' := by
  refine ⟨hshown, hnodup, harr.roots ▸ h.roots_nodup, fun j hj => ?_, fun j t v hjold hj ht => ?_,
    fun t ht => ?_, fun hb t j ht => ?_⟩
  · rw [Pc.inside_shape harr.shape, harr.pc]
    by_cases hji : j = i
    · subst hji
      rwa [Function.update_self]
    · rw [Function.update_of_ne hji]
      exact h.inside j hj
  · rw [harr.suspended] at ht
    rw [harr.pc] at hj
    by_cases hji : j = i
    · subst hji
      rw [Function.update_self] at hj
      exact hret t v hj ht
    · rw [Function.update_of_ne hji] at hj
      obtain ⟨hv, q, hq, hmem⟩ := h.requeued j t v hjold hj ht
      exact ⟨hv, q, hq, hqueue q t (by rwa [hq]) hmem⟩
  · rw [harr.suspended]
    by_cases hsame : stage' t = stage t
    · exact h.clear t (hsame ▸ ht)
    · exact hclear t hsame ht
  · rw [harr.blocking]
    by_cases hsame : stage' t = stage t
    · exact h.mpi hb t j (hsame ▸ ht)
    · exact hmpi hb t j hsame ht

/-- A step that changes no stage and no queue. -/
theorem quiet (h : Placed b old s stage) (hold : old i = false) {p : Pc}
    (harr : s.Arrives i p s') (hqueue : s'.queue = s.queue) (hin : p.Inside s.heap)
    (hview : p.view i (s.isSuspended b) s.heap = (s.pc i).view i (s.isSuspended b) s.heap)
    (hret : ∀ t v, p = .ret t v → s.isSuspended b t = false) : Placed b old s' stage := by
  have hcontent : s'.content b old = s.content b old := by
    rw [harr.content hold hqueue, hview, ← Kernels.content_of_hand hold]
    exact Function.update_eq_self (Place.hand i) (s.content b old)
  refine h.update harr hin (hcontent ▸ h.shown) (fun q => hqueue ▸ h.nodup q)
    (fun q t _ hq => hqueue ▸ hq) (fun t v hp ht => ?_) (fun t hne => absurd rfl hne)
    (fun _ t _ hne => absurd rfl hne)
  rw [hret t v hp] at ht
  cases ht

/-- The tasks in the hand of a thread get further. -/
theorem advance (h : Placed b old s stage) (hold : old i = false) {p : Pc}
    (harr : s.Arrives i p s') (hqueue : s'.queue = s.queue) (hin : p.Inside s.heap)
    (hnew : ∀ u σ, (u, σ) ∈ p.view i (s.isSuspended b) s.heap → σ.placed = true ∧ stage' u = σ ∧
      ((∃ σ', (u, σ') ∈ (s.pc i).view i (s.isSuspended b) s.heap) ∨ (stage u).placed = false))
    (hgone : ∀ u σ, (u, σ) ∈ (s.pc i).view i (s.isSuspended b) s.heap →
      (∀ σ', (u, σ') ∉ p.view i (s.isSuspended b) s.heap) → (stage' u).placed = false)
    (hsame : ∀ u, (∀ σ, (u, σ) ∉ (s.pc i).view i (s.isSuspended b) s.heap) →
      (∀ σ, (u, σ) ∉ p.view i (s.isSuspended b) s.heap) → stage' u = stage u)
    (hret : ∀ t v, p = .ret t v → s.isSuspended b t = false)
    (hclear : ∀ t, stage' t ≠ stage t → (stage' t).finisher ≠ none → s.isSuspended b t = false)
    (hmpi : b = .extraThread → ∀ t j, stage' t ≠ stage t →
      (stage' t).thread = some (.worker j) → s.blocking t = false) : Placed b old s' stage' := by
  refine h.update harr hin ?_ (fun q => hqueue ▸ h.nodup q) (fun q t _ hq => hqueue ▸ hq)
    (fun t v hp ht => ?_) hclear hmpi
  · rw [harr.content hold hqueue]
    rw [← Kernels.content_of_hand hold] at hnew hgone hsame
    exact h.shown.change hnew hgone hsame
  · rw [hret t v hp] at ht
    cases ht

/-- A task goes from a hand to a queue. -/
theorem toQueue (h : Placed b old s stage) (hold : old i = false) {p : Pc} {q : Queue m}
    {t : TaskId} {σ : Stage (Thread m)} (harr : s.Arrives i p s')
    (hqueue : s'.queue = (s.enqueue q t).queue) (hin : p.Inside s.heap)
    (hmem : (t, σ) ∈ (s.pc i).view i (s.isSuspended b) s.heap)
    (hleft : ∀ u τ, (u, τ) ∈ p.view i (s.isSuspended b) s.heap ↔
      (u, τ) ∈ (s.pc i).view i (s.isSuspended b) s.heap ∧ u ≠ t)
    (hself : stage' t = .ready) (hsame : ∀ u, u ≠ t → stage' u = stage u)
    (hret : ∀ u v, p = .ret u v → s.isSuspended b u = true →
      v = none ∧ u = t ∧ q.owner = i) : Placed b old s' stage' := by
  have hchanged : ∀ u, stage' u ≠ stage u → stage' u = .ready := by
    intro u hu
    by_cases hut : u = t
    · rw [hut, hself]
    · exact absurd (hsame u hut) hu
  refine h.update harr hin ?_ (fun q' => ?_) (fun q' u _ hu => ?_) (fun u v hp hu => ?_)
    (fun u hne hfin => ?_) (fun _ u j hne hu => ?_)
  · rw [harr.content_queue hold hqueue]
    rw [← Kernels.content_of_hand hold] at hleft
    refine h.shown.transfer .ready (by simp) (mem_hand hold hmem) rfl hleft (fun u τ => ?_)
      hself hsame
    have hmem := Kernels.mem_enqueue (s := s) (q := q) (t := t) (u := u)
    simp only [Kernels.enqueue, Kernels.setQueue, Function.update_self] at hmem
    simp only [List.mem_map, Prod.mk.injEq, Kernels.content]
    grind
  · rw [hqueue]
    by_cases hq : q' = q
    · subst hq
      exact Kernels.nodup_enqueue (h.nodup q') (h.not_queued hold hmem q')
    · rw [Kernels.enqueue_of_ne hq]
      exact h.nodup q'
  · rw [hqueue]
    by_cases hq : q' = q
    · subst hq
      exact Kernels.mem_enqueue.mpr (Or.inl hu)
    · rwa [Kernels.enqueue_of_ne hq]
  · obtain ⟨hv, rfl, howner⟩ := hret u v hp hu
    refine ⟨hv, q, howner, ?_⟩
    rw [hqueue]
    exact Kernels.mem_enqueue.mpr (Or.inr rfl)
  · rw [hchanged u hne] at hfin
    exact absurd rfl hfin
  · rw [hchanged u hne] at hu
    cases hu

/-- A thread pops its queue. -/
theorem toHand (h : Placed b old s stage) (hold : old i = false) {q : Queue m} {t : TaskId}
    {rest : List TaskId} (hempty : (s.pc i).view i (s.isSuspended b) s.heap = [])
    (howner : q.owner = i) (hqueue : s.queue q = t :: rest) :
    Placed b old ((s.setQueue q rest).setPc i (.hold t)) stage := by
  have hmem : t ∈ s.queue q := by
    rw [hqueue]
    exact List.mem_cons_self
  have hnodup := h.nodup q
  rw [hqueue, List.nodup_cons] at hnodup
  have harr : s.Arrives i (.hold t) ((s.setQueue q rest).setPc i (.hold t)) :=
    ⟨Heap.SameShape.refl _, rfl, rfl, rfl, rfl⟩
  refine h.update harr trivial ?_ (fun q' => ?_) (fun q' u hne hu => ?_) nofun
    (fun u hne => absurd rfl hne) (fun _ u _ hne => absurd rfl hne)
  · rw [harr.content_queue hold rfl, Function.update_comm (by simp)]
    refine h.shown.transfer (t := t) .ready (by simp) (mem_queue hmem) rfl (fun u τ => ?_)
      (fun u τ => ?_) (h.of_queue hmem) (fun _ _ => rfl)
    · simp only [Kernels.content, hqueue, List.mem_map, Prod.mk.injEq, List.mem_cons]
      grind
    · rw [Kernels.content_of_hand hold, hempty]
      simp [Pc.view]
  · show (Function.update s.queue q rest q').Nodup
    by_cases hq : q' = q
    · subst hq
      rw [Function.update_self]
      exact hnodup.2
    · rw [Function.update_of_ne hq]
      exact h.nodup q'
  · show u ∈ Function.update s.queue q rest q'
    rw [Function.update_of_ne]
    · exact hu
    · rintro rfl
      exact hne howner

/-- One task in the hand gets further; the others in it stay as they are. -/
theorem advanceOne (h : Placed b old s stage) (hold : old i = false) {t : TaskId}
    {σ : Stage (Thread m)} {p : Pc} (ρ : Stage (Thread m)) (rest : List TaskId)
    (harr : s.Arrives i p s') (hqueue : s'.queue = s.queue) (hin : p.Inside s.heap)
    (hbefore : (s.pc i).view i (s.isSuspended b) s.heap = [(t, σ)])
    (hafter : p.view i (s.isSuspended b) s.heap = (t, ρ) :: rest.map fun u => (u, .ready))
    (hplaced : ρ.placed = true) (hself : stage' t = ρ)
    (hrest : ∀ u ∈ rest, stage u = .waiting ∧ stage' u = .ready)
    (hsame : ∀ u, u ≠ t → u ∉ rest → stage' u = stage u)
    (hret : ∀ u v, p = .ret u v → s.isSuspended b u = false)
    (hclear : ρ.finisher ≠ none → s.isSuspended b t = false)
    (hmpi : b = .extraThread → ∀ j, ρ.thread = some (.worker j) → s.blocking t = false) :
    Placed b old s' stage' := by
  refine h.advance hold harr hqueue hin ?_ ?_ ?_ hret ?_ ?_
  · intro u τ hu
    rw [hafter, List.mem_cons] at hu
    rw [hbefore]
    obtain hu | hu := hu
    · cases hu
      exact ⟨hplaced, hself, Or.inl ⟨σ, List.mem_singleton_self _⟩⟩
    · obtain ⟨w, hw, heq⟩ := List.mem_map.mp hu
      cases heq
      obtain ⟨hwaiting, hready⟩ := hrest _ hw
      exact ⟨rfl, hready, Or.inr (by rw [hwaiting]; rfl)⟩
  · intro u τ hu hno
    rw [hbefore, List.mem_singleton] at hu
    cases hu
    exact absurd (by rw [hafter]; exact List.mem_cons_self) (hno ρ)
  · intro u hu hno
    rw [hafter] at hno
    refine hsame u ?_ fun hmem => ?_
    · rintro rfl
      exact hno ρ List.mem_cons_self
    · exact hno .ready (List.mem_cons_of_mem _ (List.mem_map.mpr ⟨u, hmem, rfl⟩))
  · intro u hne hfin
    by_cases hut : u = t
    · subst hut
      exact hclear (hself ▸ hfin)
    · by_cases hmem : u ∈ rest
      · rw [(hrest u hmem).2] at hfin
        exact absurd rfl hfin
      · exact absurd (hsame u hut hmem) hne
  · intro hb u j hne hthread
    by_cases hut : u = t
    · subst hut
      exact hmpi hb j (hself ▸ hthread)
    · by_cases hmem : u ∈ rest
      · rw [(hrest u hmem).2] at hthread
        cases hthread
      · exact absurd (hsame u hut hmem) hne

/-- The hands of the other threads do not depend on the flag of a task whose body runs. -/
theorem view_setSuspend (h : Placed b old s stage) {t : TaskId} (ht : stage t = .started i)
    {j : Thread m} (hold : old j = false) (mode : Bool) :
    (s.pc j).view j ((s.setSuspend t mode).isSuspended b) s.heap =
      (s.pc j).view j (s.isSuspended b) s.heap := by
  have hreading := h.not_reading ht hold
  cases hp : s.pc j with
  | restore u =>
      have hut : u ≠ t := fun he => (hreading none).1 (by rw [hp, he])
      simp only [Pc.view, Kernels.isSuspended_setSuspend hut]
  | test u =>
      have hut : u ≠ t := fun he => (hreading none).2.1 (by rw [hp, he])
      simp only [Pc.view, Kernels.isSuspended_setSuspend hut]
  | ret u v =>
      have hut : u ≠ t := fun he => (hreading v).2.2 (by rw [hp, he])
      simp only [Pc.view, Kernels.isSuspended_setSuspend hut]
  | next => rfl
  | clear => rfl
  | poll => rfl
  | pop => rfl
  | hold _ => rfl
  | body _ => rfl
  | loop _ _ => rfl
  | push _ _ _ => rfl
  | vert _ => rfl

theorem content_finish (h : Placed b old s stage) (hold : old i = false) {t : TaskId}
    (ht : stage t = .started i) (mode : Bool) :
    ((s.setSuspend t mode).setPc i (.restore t)).content b old =
      Function.update (s.content b old) (.hand i)
        [(t, .stopped i ((s.setSuspend t mode).isSuspended b t))] := by
  ext1 place
  cases place with
  | root => rfl
  | queue q => rfl
  | hand j =>
      simp only [Kernels.content, Kernels.setPc]
      by_cases hj : j = i
      · subst hj
        simp only [Function.update_self, hold]
        rfl
      · rw [Function.update_of_ne hj, Function.update_of_ne (by simpa using hj)]
        by_cases hjold : old j = true
        · simp [Kernels.content, hjold]
        · have hjold : old j = false := by simpa using hjold
          rw [Kernels.content_of_hand hjold, if_neg (by rw [hjold]; simp)]
          exact h.view_setSuspend ht hjold mode

/-- The body of a task ends and leaves `mode` in its flag. No other thread reads the flag. -/
theorem finish (h : Placed b old s stage) (hold : old i = false) {t : TaskId} {mode : Bool}
    (hpc : s.pc i = .body t)
    (hself : stage' t = .stopped i ((s.setSuspend t mode).isSuspended b t))
    (hsame : ∀ u, u ≠ t → stage' u = stage u) :
    Placed b old ((s.setSuspend t mode).setPc i (.restore t)) stage' := by
  have ht : stage t = .started i := h.of_view hold (by rw [hpc]; rfl)
  refine ⟨?_, h.nodup, h.roots_nodup, fun j hj => ?_, fun j u v hjold hj hu => ?_,
    fun u hu => ?_, fun hb u j hu => ?_⟩
  · rw [h.content_finish hold ht mode]
    refine h.shown.change (fun u σ hu => ?_) (fun u σ hu hno => ?_) fun u hu hno => ?_
    · cases List.mem_singleton.mp hu
      refine ⟨rfl, hself, Or.inl ⟨.started i, ?_⟩⟩
      rw [Kernels.content_of_hand hold, hpc]
      exact List.mem_cons_self
    · rw [Kernels.content_of_hand hold, hpc] at hu
      cases List.mem_singleton.mp hu
      exact absurd (List.mem_singleton_self _) (hno _)
    · apply hsame u
      rintro rfl
      exact hno _ (List.mem_singleton_self _)
  · show (Function.update s.pc i (.restore t) j).Inside s.heap
    by_cases hji : j = i
    · subst hji
      rw [Function.update_self]
      trivial
    · rw [Function.update_of_ne hji]
      exact h.inside j hj
  · change Function.update s.pc i (.restore t) j = .ret u v at hj
    by_cases hji : j = i
    · subst hji
      rw [Function.update_self] at hj
      cases hj
    · rw [Function.update_of_ne hji] at hj
      have hut : u ≠ t := by
        rintro rfl
        exact (h.not_reading ht hjold v).2.2 hj
      exact h.requeued j u v hjold hj ((Kernels.isSuspended_setSuspend hut mode b).symm.trans hu)
  · show (s.setSuspend t mode).isSuspended b u = false
    by_cases hut : u = t
    · subst hut
      rw [hself] at hu
      cases hflag : (s.setSuspend u mode).isSuspended b u with
      | false => rfl
      | true =>
          rw [hflag] at hu
          exact absurd rfl hu
    · rw [Kernels.isSuspended_setSuspend hut]
      exact h.clear u (hsame u hut ▸ hu)
  · show s.blocking u = false
    by_cases hut : u = t
    · subst hut
      rw [hself] at hu
      exact h.ordinary ht rfl hb j hu
    · exact h.mpi hb u j (hsame u hut ▸ hu)

end Placed

/-! ## One step -/

/-- What a step means to the stages: the task at hand reaches the stage of the label, and the
successor whose counter becomes zero is ready. -/
structure Goes (s : Kernels m) (l : Label m) (stage stage' : TaskId → Stage (Thread m)) :
    Prop where
  self : stage' l.task = l.stage
  others : ∀ u, u ≠ l.task → stage' u =
    if l.act = some (.walk u) ∧ (s.heap u).refCount - 1 = 0 then .ready else stage u
  waits : ∀ u, l.act = some (.walk u) → u ≠ l.task ∧ stage u = .waiting

theorem Goes.others_of_ne {s : Kernels m} {l : Label m} {stage stage' : TaskId → Stage (Thread m)}
    (h : Goes s l stage stage') {u : TaskId} (hu : u ≠ l.task) (hact : l.act ≠ some (.walk u)) :
    stage' u = stage u := by
  rw [h.others u hu, if_neg fun hand => hact hand.1]

/-- The edge to `succ` is walked, and its counter becomes zero or not. -/
theorem Goes.released {s : Kernels m} {l : Label m} {stage stage' : TaskId → Stage (Thread m)}
    (h : Goes s l stage stage') {succ : TaskId} (hact : l.act = some (.walk succ))
    (hzero : (s.heap succ).refCount - 1 = 0) :
    stage succ = .waiting ∧ stage' succ = .ready := by
  obtain ⟨hne, hwaiting⟩ := h.waits succ hact
  exact ⟨hwaiting, by rw [h.others succ hne, if_pos ⟨hact, hzero⟩]⟩

theorem Goes.kept {s : Kernels m} {l : Label m} {stage stage' : TaskId → Stage (Thread m)}
    (h : Goes s l stage stage') {succ : TaskId} (hact : l.act = some (.walk succ))
    (hzero : (s.heap succ).refCount - 1 ≠ 0) {u : TaskId} (hu : u ≠ l.task) :
    stage' u = stage u := by
  rw [h.others u hu, if_neg]
  rintro ⟨hwalk, hcount⟩
  rw [hact] at hwalk
  cases hwalk
  exact hzero hcount

namespace Kernels

/-- A thread that leaves a task for good has found its flag clear. -/
theorem label_of_retire {b : Strategy} {s : Kernels m} {t : TaskId} {l l' : Label m}
    (hlabel : some l = if s.isSuspended b t then none else some l') :
    s.isSuspended b t = false ∧ l = l' := by
  cases hsuspended : s.isSuspended b t with
  | false =>
      rw [hsuspended] at hlabel
      exact ⟨rfl, Option.some.inj hlabel⟩
  | true =>
      rw [hsuspended] at hlabel
      cases hlabel

end Kernels

namespace Placed

variable {b : Strategy} {old : Thread m → Bool} {s s' : Kernels m}
  {stage stage' : TaskId → Stage (Thread m)} {i : Thread m}

theorem of_record (h : Placed b old s stage) (i : Thread m) (t : TaskId) (act : Act TaskId) :
    Placed b old (s.record i t act) stage :=
  ⟨h.shown, h.nodup, h.roots_nodup, h.inside, h.requeued, h.clear, h.mpi⟩

theorem quietTurn (h : Placed b old s stage) (hold : old i = false)
    (hkind : ∀ t, stage t = .ready → (s.heap t).isAceMesh)
    (hturn : Kernels.Turn b s i s' none) : Placed b old s' stage := by
  generalize hlabel : none = label at hturn
  cases hturn with
  | @search n p pc pc' =>
      have harr : s.Arrives i p ((s.setNumMpi n).setPc i p) :=
        ⟨Heap.SameShape.refl _, rfl, rfl, rfl, rfl⟩
      refine h.quiet hold harr rfl (Pc.inside_searching pc' _) ?_ fun t v hp => ?_
      · rw [Pc.view_searching pc, Pc.view_searching pc']
      · rw [hp] at pc'
        cases pc'
  | pop pc owner queue => exact h.toHand hold (Pc.view_searching pc ..) owner queue
  | @handOver t pc =>
      have hview : (s.pc i).view i (s.isSuspended b) s.heap = [(t, .ready)] := by rw [pc]; rfl
      have harr : s.Arrives i .next ((s.enqueue .mpi t).setPc i .next) :=
        ⟨Heap.SameShape.refl _, rfl, rfl, rfl, rfl⟩
      refine h.toQueue hold harr rfl trivial (σ := .ready) ?_ (fun u τ => ?_)
        (h.of_view hold hview) (fun _ _ => rfl) fun u v hp => ?_
      · rw [hview]
        exact List.mem_singleton_self _
      · rw [hview]
        simp only [Pc.view, List.not_mem_nil, List.mem_singleton, Prod.mk.injEq, false_iff]
        exact fun hand => hand.2 hand.1.1
      · cases hp
  | @skip t pc kind =>
      have hready : stage t = .ready := h.of_view hold (by rw [pc]; rfl)
      rw [hkind t hready] at kind
      cases kind
  | @restore t pc =>
      refine h.quiet hold (p := .test t) ⟨s.heap.sameShape_restore t, rfl, rfl, rfl, rfl⟩ rfl
        trivial ?_ fun u v hp => ?_
      · rw [pc]
        rfl
      · cases hp
  | @arrive t k pc last =>
      have hin := h.inside i hold
      rw [pc] at hin
      have hk : k = (s.heap t).successorTasks.length := Nat.le_antisymm hin last
      refine h.quiet hold (Kernels.Arrives.of_setPc s i (.vert t)) rfl trivial ?_ fun u v hp => ?_
      · rw [pc, hk]
        rfl
      · cases hp
  | @spawn t succ k q pc =>
      have hview : (s.pc i).view i (s.isSuspended b) s.heap =
          [(t, .walking i (k + 1)), (succ, .ready)] := by rw [pc]; rfl
      have hmem : (succ, Stage.ready) ∈ (s.pc i).view i (s.isSuspended b) s.heap := by
        rw [hview]
        exact List.mem_cons_of_mem _ (List.mem_singleton_self _)
      have hready : stage succ = .ready := h.of_hand hold hmem
      have hwalking : stage t = .walking i (k + 1) :=
        h.of_hand hold (by rw [hview]; exact List.mem_cons_self)
      have hne : t ≠ succ := by
        rintro rfl
        rw [hready] at hwalking
        cases hwalking
      have hin := h.inside i hold
      rw [pc] at hin
      have harr : s.Arrives i (.loop t (k + 1)) ((s.enqueue q succ).setPc i (.loop t (k + 1))) :=
        ⟨Heap.SameShape.refl _, rfl, rfl, rfl, rfl⟩
      refine h.toQueue hold harr rfl hin hmem (fun u τ => ?_) hready (fun _ _ => rfl)
        fun u v hp => ?_
      · rw [hview]
        simp only [Pc.view, List.mem_cons, List.not_mem_nil, or_false, Prod.mk.injEq]
        constructor
        · rintro ⟨rfl, rfl⟩
          exact ⟨Or.inl ⟨rfl, rfl⟩, hne⟩
        · rintro ⟨hand | hand, hu⟩
          · exact hand
          · exact absurd hand.1 hu
      · cases hp
  | @back t pc next =>
      have hwalking : stage t = .walking i (s.heap t).successorTasks.length :=
        h.of_view hold (by rw [pc]; rfl)
      have hclear := h.clear_of_walking hwalking
      have houts : (s.heap t).outs.length = (s.heap t).successorTasks.length := by
        simp [Task.outs, next]
      refine h.quiet hold (Kernels.Arrives.of_setPc s i (.ret t none)) rfl trivial ?_
        fun u v hp => ?_
      · rw [pc]
        simp [Pc.view, hclear, houts]
      · cases hp
        exact hclear
  | @retire t v pc =>
      -- the task has been queued once more
      have hsuspended : s.isSuspended b t = true := by
        by_contra hno
        rw [if_neg hno] at hlabel
        cases hlabel
      obtain ⟨rfl, -⟩ := h.requeued i t v hold pc hsuspended
      refine h.quiet hold (Kernels.Arrives.of_retire b s i t none) (s.retire_spec b i t none).queue
        trivial ?_ fun u w hp => ?_
      · rw [pc]
        simp [Pc.view, hsuspended, Kernels.afterReturn]
      · cases hp
  | start => cases hlabel
  | finish => cases hlabel
  | requeue => cases hlabel
  | resume => cases hlabel
  | walk => cases hlabel
  | walkVertical => cases hlabel

/-- The labels follow the stages. -/
theorem advances (h : Placed b old s stage) (hold : old i = false) {l : Label m}
    (hturn : Kernels.Turn b s i s' (some l)) :
    Suspend.Advance (s.heap l.task).outs i (stage l.task) l.act l.stage := by
  generalize hlabel : some l = label at hturn
  cases hturn with
  | @start t pc mpi =>
      cases hlabel
      have ht : stage t = .ready := h.of_view hold (by rw [pc]; rfl)
      rw [ht]
      exact .start
  | @finish t mode pc =>
      cases hlabel
      have ht : stage t = .started i := h.of_view hold (by rw [pc]; rfl)
      rw [ht]
      exact .finish _
  | @requeue t pc suspended =>
      cases hlabel
      have ht : stage t = .stopped i true := h.of_view hold (by rw [pc, ← suspended]; rfl)
      rw [ht]
      exact .requeue
  | @resume t pc clear =>
      cases hlabel
      have ht : stage t = .stopped i false := h.of_view hold (by rw [pc, ← clear]; rfl)
      rw [ht]
      exact .resume
  | @walk t succ k pc next =>
      cases hlabel
      have ht : stage t = .walking i k := h.of_view hold (by rw [pc]; rfl)
      rw [ht]
      refine .walk ?_
      have hlt := (List.getElem?_eq_some_iff.mp next).1
      rw [Task.outs, List.getElem?_append_left hlt]
      exact next
  | @walkVertical t succ pc next =>
      cases hlabel
      have ht : stage t = .walking i (s.heap t).successorTasks.length :=
        h.of_view hold (by rw [pc]; rfl)
      rw [ht]
      refine .walk ?_
      rw [Task.outs, next]
      simp
  | @retire t v pc =>
      obtain ⟨hclear, rfl⟩ := Kernels.label_of_retire hlabel
      have ht : stage t = .walking i (s.heap t).outs.length :=
        h.of_hand hold (by rw [pc]; simp [Pc.view, hclear])
      dsimp only
      rw [ht]
      cases Kernels.deletes b i (s.heap t).reused (s.blocking t) (s.suspend t) with
      | false => exact .leave
      | true => exact .delete
  | search => cases hlabel
  | pop => cases hlabel
  | handOver => cases hlabel
  | skip => cases hlabel
  | restore => cases hlabel
  | arrive => cases hlabel
  | spawn => cases hlabel
  | back => cases hlabel

/-- A task whose flag is set goes to the queue once more. -/
theorem requeue (h : Placed b old s stage) (hold : old i = false) {t : TaskId}
    (hpc : s.pc i = .test t) (hsuspended : s.isSuspended b t = true)
    (hself : stage' t = .ready) (hsame : ∀ u, u ≠ t → stage' u = stage u) :
    Placed b old ((s.enqueue (Kernels.suspendQueue b i) t).setPc i (.ret t none)) stage' := by
  have hview : (s.pc i).view i (s.isSuspended b) s.heap = [(t, .stopped i true)] := by
    rw [hpc, ← hsuspended]
    rfl
  have ht := h.of_view hold hview
  have harr : s.Arrives i (.ret t none)
      ((s.enqueue (Kernels.suspendQueue b i) t).setPc i (.ret t none)) :=
    ⟨Heap.SameShape.refl _, rfl, rfl, rfl, rfl⟩
  refine h.toQueue hold harr rfl trivial (σ := .stopped i true) ?_ (fun u τ => ?_) hself hsame
    fun u v hp hu => ?_
  · rw [hview]
    exact List.mem_singleton_self _
  · rw [hview]
    simp only [Pc.view, hsuspended, if_true, Option.toList_none, List.map_nil, List.append_nil,
      List.not_mem_nil, List.mem_singleton, Prod.mk.injEq, false_iff]
    exact fun hand => hand.2 hand.1.1
  · cases hp
    refine ⟨rfl, rfl, ?_⟩
    unfold Kernels.suspendQueue
    split
    · -- only the MPI thread executes blocking tasks
      rename_i hb
      cases i with
      | mpi => rfl
      | worker j =>
          have hblocking := h.mpi hb t j (by rw [ht]; rfl)
          rw [(Kernels.isSuspended_iff.mp hsuspended).2.1] at hblocking
          cases hblocking
    · rfl

/-- An edge is walked; the thread holds the successor if that is released. -/
theorem walkEdge (h : Placed b old s stage) (hold : old i = false) {t succ : TaskId} {k : Nat}
    {p : Pc} (hgoes : Goes s ⟨t, some (.walk succ), .walking i (k + 1)⟩ stage stage')
    (hin : p.Inside s.heap)
    (hbefore : (s.pc i).view i (s.isSuspended b) s.heap = [(t, .walking i k)])
    (hafter : p.view i (s.isSuspended b) s.heap = (t, .walking i (k + 1)) ::
      (if (s.heap succ).refCount - 1 = 0 then [succ] else []).map fun u => (u, .ready))
    (hret : ∀ u v, p = .ret u v → u = t) :
    Placed b old ((s.walkEdge i t succ).setPc i p) stage' := by
  have ht := h.of_view hold hbefore
  have hclear := h.clear_of_walking ht
  have hret' : ∀ u v, p = .ret u v → s.isSuspended b u = false := by
    intro u v hp
    rw [hret u v hp]
    exact hclear
  have harr : s.Arrives i p ((s.walkEdge i t succ).setPc i p) :=
    ⟨s.heap.sameShape_decrement succ, rfl, rfl, rfl, rfl⟩
  by_cases hzero : (s.heap succ).refCount - 1 = 0
  · rw [if_pos hzero] at hafter
    refine h.advanceOne hold _ [succ] harr rfl hin hbefore hafter rfl hgoes.self (fun u hu => ?_)
      (fun u hu hmem => ?_) hret' (fun _ => hclear) (h.ordinary ht rfl)
    · cases List.mem_singleton.mp hu
      exact hgoes.released rfl hzero
    · refine hgoes.others_of_ne hu fun he => ?_
      cases he
      exact hmem (List.mem_singleton_self _)
  · rw [if_neg hzero] at hafter
    exact h.advanceOne hold _ [] harr rfl hin hbefore hafter rfl hgoes.self nofun
      (fun u hu _ => hgoes.kept rfl hzero hu) hret' (fun _ => hclear) (h.ordinary ht rfl)

/-- A thread leaves a task for good; the task that `execute` has returned stays in its hand. -/
theorem leave (h : Placed b old s stage) (hold : old i = false) {t : TaskId} {v : Option TaskId}
    (hpc : s.pc i = .ret t v) (hclear : s.isSuspended b t = false) {deleted : Bool}
    (hself : stage' t = .gone i deleted) (hsame : ∀ u, u ≠ t → stage' u = stage u) :
    Placed b old (s.retire b i t v) stage' := by
  have hview : (s.pc i).view i (s.isSuspended b) s.heap =
      (t, .walking i (s.heap t).outs.length) :: v.toList.map fun succ => (succ, .ready) := by
    rw [hpc]
    simp [Pc.view, hclear]
  have ht : stage t = .walking i (s.heap t).outs.length :=
    h.of_hand hold (by rw [hview]; exact List.mem_cons_self)
  have hafter : (Kernels.afterReturn v).view i (s.isSuspended b) s.heap =
      v.toList.map fun succ => (succ, .ready) := by
    cases v <;> rfl
  have hmem : ∀ u ∈ v.toList, (u, Stage.ready) ∈ (s.pc i).view i (s.isSuspended b) s.heap := by
    intro u hu
    rw [hview]
    exact List.mem_cons_of_mem _ (List.mem_map.mpr ⟨u, hu, rfl⟩)
  have hnot : ∀ u ∈ v.toList, u ≠ t := by
    intro u hu
    rintro rfl
    have hready := h.of_hand hold (hmem u hu)
    rw [ht] at hready
    cases hready
  have hchanged : ∀ u, stage' u ≠ stage u → u = t := by
    intro u hne
    by_contra hut
    exact hne (hsame u hut)
  refine h.advance hold (Kernels.Arrives.of_retire b s i t v) (s.retire_spec b i t v).queue ?_
    (fun u τ hu => ?_) (fun u τ hu hno => ?_) (fun u hu hno => ?_) (fun u w hp => ?_)
    (fun u hne hfin => ?_) (fun hb u j hne hu => ?_)
  · cases v <;> trivial
  · rw [hafter] at hu
    obtain ⟨w, hw, heq⟩ := List.mem_map.mp hu
    cases heq
    have hready := h.of_hand hold (hmem _ hw)
    exact ⟨rfl, (hsame _ (hnot _ hw)).trans hready, Or.inl ⟨_, hmem _ hw⟩⟩
  · rw [hview, List.mem_cons] at hu
    obtain hu | hu := hu
    · cases hu
      rw [hself]
      rfl
    · rw [hafter] at hno
      exact absurd hu (hno τ)
  · refine hsame u ?_
    rintro rfl
    exact hu _ (by rw [hview]; exact List.mem_cons_self)
  · cases v <;> cases hp
  · rw [hchanged u hne]
    exact hclear
  · obtain rfl := hchanged u hne
    rw [hself] at hu
    exact h.ordinary ht rfl hb j hu

/-- The step of a task at hand. -/
theorem activeTurn (h : Placed b old s stage) (hold : old i = false) {l : Label m}
    (hturn : Kernels.Turn b s i s' (some l)) (hgoes : Goes s l stage stage') :
    Placed b old s' stage' := by
  generalize hlabel : some l = label at hturn
  cases hturn with
  | @start t pc mpi =>
      cases hlabel
      refine (h.advanceOne hold (.started i) [] (Kernels.Arrives.of_setPc s i (.body t)) rfl
        trivial (by rw [pc]; rfl) rfl rfl hgoes.self nofun
        (fun u hu _ => hgoes.others_of_ne hu nofun) nofun (fun hfin => absurd rfl hfin)
        fun hb j hj => mpi hb ?_).of_record ..
      rintro rfl
      cases hj
  | @finish t mode pc =>
      cases hlabel
      exact (h.finish hold pc hgoes.self fun u hu => hgoes.others_of_ne hu nofun).of_record ..
  | @requeue t pc suspended =>
      cases hlabel
      exact (h.requeue hold pc suspended hgoes.self fun u hu =>
        hgoes.others_of_ne hu nofun).of_record ..
  | @resume t pc clear =>
      cases hlabel
      have hview : (s.pc i).view i (s.isSuspended b) s.heap = [(t, .stopped i false)] := by
        rw [pc, ← clear]
        rfl
      exact h.advanceOne hold (.walking i 0) [] (Kernels.Arrives.of_setPc s i (.loop t 0)) rfl
        (Nat.zero_le _) hview rfl rfl hgoes.self nofun
        (fun u hu _ => hgoes.others_of_ne hu nofun) nofun (fun _ => clear)
        (h.ordinary (h.of_view hold hview) rfl)
  | @walk t succ k pc next =>
      cases hlabel
      have hlt := (List.getElem?_eq_some_iff.mp next).1
      refine h.walkEdge hold hgoes ?_ (by rw [pc]; rfl) ?_ fun u v hp => ?_
      · split <;> exact hlt
      · split <;> rfl
      · split at hp <;> cases hp
  | @walkVertical t succ pc next =>
      cases hlabel
      have hview : (s.pc i).view i (s.isSuspended b) s.heap =
          [(t, .walking i (s.heap t).successorTasks.length)] := by
        rw [pc]
        rfl
      have hclear := h.clear_of_walking (h.of_view hold hview)
      have houts : (s.heap t).outs.length = (s.heap t).successorTasks.length + 1 := by
        simp [Task.outs, next]
      refine h.walkEdge hold hgoes trivial hview ?_ fun u v hp => ?_
      · simp only [Pc.view, hclear, houts, Bool.false_eq_true, if_false]
        split <;> rfl
      · cases hp
        rfl
  | @retire t v pc =>
      obtain ⟨hclear, rfl⟩ := Kernels.label_of_retire hlabel
      refine h.leave hold pc hclear hgoes.self fun u hu => hgoes.others_of_ne hu ?_
      dsimp only
      split <;> simp
  | search => cases hlabel
  | pop => cases hlabel
  | handOver => cases hlabel
  | skip => cases hlabel
  | restore => cases hlabel
  | arrive => cases hlabel
  | spawn => cases hlabel
  | back => cases hlabel

/-- A root goes from the list to a queue. -/
theorem spawnRoot (h : Placed b old s stage) {e t : TaskId} {roots : List TaskId} (q : Queue m)
    (hmain : s.main = .spawn e (t :: roots)) :
    Placed b old { s.enqueue q t with main := .spawn e roots } stage := by
  have hroots : s.main.roots = t :: roots := by rw [hmain]; rfl
  have hnodup := h.roots_nodup
  rw [hroots, List.nodup_cons] at hnodup
  have hmem : (t, Stage.ready) ∈ s.content b old .root := by
    simp [Kernels.content, hroots]
  have hready : stage t = .ready := h.shown.stage_eq hmem
  have hnot : ∀ q, t ∉ s.queue q := by
    intro q hq
    have hplace : (Place.root : Place m) = .queue q := h.shown.unique hmem (mem_queue hq)
    cases hplace
  have hcontent : ({ s.enqueue q t with main := .spawn e roots } : Kernels m).content b old =
      Function.update (Function.update (s.content b old) .root
        (roots.map fun u => (u, .ready))) (.queue q)
        (((s.enqueue q t).queue q).map fun u => (u, .ready)) := by
    funext place
    cases place with
    | root =>
        rw [Function.update_of_ne (by simp), Function.update_self]
        rfl
    | queue q' =>
        by_cases hq : q' = q
        · subst hq
          rw [Function.update_self]
          rfl
        · rw [Function.update_of_ne (by simpa using hq), Function.update_of_ne (by simp)]
          simp only [Kernels.content, Kernels.enqueue_of_ne hq]
    | hand j =>
        rw [Function.update_of_ne (by simp), Function.update_of_ne (by simp)]
        rfl
  refine ⟨?_, fun q' => ?_, hnodup.2, h.inside, fun j u v hj hp hu => ?_, h.clear, h.mpi⟩
  · rw [hcontent]
    refine h.shown.transfer .ready (by simp) hmem rfl (fun u τ => ?_) (fun u τ => ?_) hready
      (fun _ _ => rfl)
    · simp only [Kernels.content, hroots, List.mem_map, Prod.mk.injEq, List.mem_cons]
      grind
    · simp only [List.mem_map, Prod.mk.injEq, Kernels.content, Kernels.mem_enqueue]
      grind
  · show ((s.enqueue q t).queue q').Nodup
    by_cases hq : q' = q
    · subst hq
      exact Kernels.nodup_enqueue (h.nodup q') (hnot q')
    · rw [Kernels.enqueue_of_ne hq]
      exact h.nodup q'
  · obtain ⟨hv, q', howner, hmem⟩ := h.requeued j u v hj hp hu
    refine ⟨hv, q', howner, ?_⟩
    show u ∈ (s.enqueue q t).queue q'
    by_cases hq : q' = q
    · subst hq
      exact Kernels.mem_enqueue.mpr (Or.inl hmem)
    · rwa [Kernels.enqueue_of_ne hq]

/-- The main thread gets on without a look at the tasks. -/
theorem withMain (h : Placed b old s stage) {heap : Heap} {main : MainPc}
    (hshape : s.heap.SameShape heap) (hroots : main.roots = s.main.roots) :
    Placed b old { s with heap := heap, main := main } stage := by
  have hcontent : ({ s with heap := heap, main := main } : Kernels m).content b old =
      s.content b old := by
    funext place
    cases place with
    | root => simp only [Kernels.content, hroots]
    | queue q => rfl
    | hand j =>
        simp only [Kernels.content, Pc.view_shape hshape]
        rfl
  refine ⟨hcontent ▸ h.shown, h.nodup, hroots ▸ h.roots_nodup, fun j hj => ?_, h.requeued,
    h.clear, h.mpi⟩
  exact (Pc.inside_shape hshape _).mpr (h.inside j hj)

/-- A thread that is done with an earlier graph has nothing of this one in its hand. -/
theorem oldTurn (h : Placed b old s stage) (hold : old i = true) {t : TaskId}
    {label : Option (Label m)} (hturn : Kernels.Turn b s i s' label)
    (hreturns : Kernels.Returns s s' i t) :
    Placed b (Function.update old i (s'.pc i != .next)) s' stage := by
  obtain ⟨hblocking, hmain⟩ := hturn.frame
  have hsuspended := Kernels.isSuspended_congr hblocking hreturns.suspend b
  have hothers : ∀ j, j ≠ i → Function.update old i (s'.pc i != .next) j = old j := fun j hj =>
    Function.update_of_ne hj ..
  have hcontent : s'.content b (Function.update old i (s'.pc i != .next)) = s.content b old := by
    funext place
    cases place with
    | root => simp only [Kernels.content, hmain]
    | queue q => simp only [Kernels.content, hreturns.queue]
    | hand j =>
        by_cases hj : j = i
        · subst hj
          by_cases hnext : s'.pc j = .next
          · simp [Kernels.content, hold, hnext, Pc.view]
          · simp [Kernels.content, hold, hnext]
        · simp only [Kernels.content, hothers j hj, hturn.others hj, hsuspended,
            Pc.view_shape hturn.shape]
  refine ⟨hcontent ▸ h.shown, fun q => hreturns.queue ▸ h.nodup q, hmain ▸ h.roots_nodup,
    fun j hj => ?_, fun j u v hj hp hu => ?_, fun u hu => ?_, fun hb u j hu => ?_⟩
  · rw [Pc.inside_shape hturn.shape]
    by_cases hji : j = i
    · subst hji
      rw [Function.update_self] at hj
      have hnext : s'.pc j = .next := by simpa using hj
      rw [hnext]
      trivial
    · rw [hothers j hji] at hj
      rw [hturn.others hji]
      exact h.inside j hj
  · by_cases hji : j = i
    · subst hji
      rw [Function.update_self, hp] at hj
      cases hj
    · rw [hothers j hji] at hj
      rw [hturn.others hji] at hp
      rw [hreturns.queue]
      exact h.requeued j u v hj hp (hsuspended ▸ hu)
  · rw [hsuspended]
    exact h.clear u hu
  · rw [hblocking]
    exact h.mpi hb u j hu

end Placed

end AceMesh.MpiStrategy
