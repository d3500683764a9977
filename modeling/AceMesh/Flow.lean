import AceMesh.Turn
import AceMesh.Lib.Release

/-!
# Tasks on their way

While a graph is executed, `Flow` ties the counters to the edges that are still to be
walked (`count`, `outside`), says where every released task is (`place`: in exactly one
queue, hand or root list until it is started), and what every thread has still to do
(`walking`, `started`). A task that is started but not at a thread has walked all its edges.

The counters of `Release` do the graph part; this file shows that every step of a thread
keeps the invariant. Which objects outside of the graph the tasks lead to is left open.
-/

open AceMesh.TaskDagGraph AceMesh.Runtime

namespace AceMesh

variable {m : Nat}

namespace Runtime

/-- The sum of a number over the threads. -/
def tally (f : Pc → Nat) (r : Runtime m) : Nat := ∑ i, f (r.pc i)

/-- How often a task is in a queue. -/
def queued (r : Runtime m) (t : TaskId) : Nat := ∑ i, (r.queue i).count t

/-- How often a task is in a hand. -/
def inHand (r : Runtime m) (t : TaskId) : Nat := r.tally fun p => if p.hand = some t then 1 else 0

/-- How many threads have edges of a task left to walk. -/
def walkers (r : Runtime m) (t : TaskId) : Nat :=
  r.tally fun p => if p.Active r.heap t then 1 else 0

/-- How many threads run the body of a task. -/
def bodies (r : Runtime m) (t : TaskId) : Nat := r.tally fun p => if p = .body t then 1 else 0

/-- The edges into a task that are still to be walked. -/
def pending (nodes : Finset TaskId) (r : Runtime m) (t : TaskId) : Nat :=
  Release.pending nodes r.outs r.walked t

theorem sum_update {β : Type} (f : β → Nat) (g : Fin (m + 1) → β) (i : Fin (m + 1)) (b : β) :
    ∑ j, f (Function.update g i b j) + f (g i) = ∑ j, f (g j) + f b := by
  have hrest : ∑ j ∈ Finset.univ \ {i}, f (Function.update g i b j) =
      ∑ j ∈ Finset.univ \ {i}, f (g j) := by
    refine Finset.sum_congr rfl fun j hj => ?_
    have hne : j ≠ i := by simpa using (Finset.mem_sdiff.mp hj).2
    rw [Function.update_of_ne hne]
  rw [← Finset.sum_sdiff (Finset.subset_univ {i}), ← Finset.sum_sdiff (Finset.subset_univ {i}),
    hrest]
  simp only [Finset.sum_singleton, Function.update_self]
  omega

theorem tally_setPc (f : Pc → Nat) (r : Runtime m) (i : Fin (m + 1)) (p : Pc) :
    (r.setPc i p).tally f + f (r.pc i) = r.tally f + f p :=
  sum_update f r.pc i p

theorem inHand_setPc (r : Runtime m) (i : Fin (m + 1)) (p : Pc) (t : TaskId) :
    (r.setPc i p).inHand t + (if (r.pc i).hand = some t then 1 else 0) =
      r.inHand t + if p.hand = some t then 1 else 0 :=
  tally_setPc (fun p => if p.hand = some t then 1 else 0) r i p

theorem walkers_setPc (r : Runtime m) (i : Fin (m + 1)) (p : Pc) (t : TaskId) :
    (r.setPc i p).walkers t + (if (r.pc i).Active r.heap t then 1 else 0) =
      r.walkers t + if p.Active r.heap t then 1 else 0 :=
  tally_setPc (fun p => if p.Active r.heap t then 1 else 0) r i p

theorem bodies_setPc (r : Runtime m) (i : Fin (m + 1)) (p : Pc) (t : TaskId) :
    (r.setPc i p).bodies t + (if r.pc i = .body t then 1 else 0) =
      r.bodies t + if p = .body t then 1 else 0 :=
  tally_setPc (fun p => if p = .body t then 1 else 0) r i p

theorem queued_localSpawn (r : Runtime m) (i : Fin (m + 1)) (s t : TaskId) :
    (r.localSpawn i s).queued t = r.queued t + if s = t then 1 else 0 := by
  have hsum : (r.localSpawn i s).queued t + (r.queue i).count t =
      r.queued t + (s :: r.queue i).count t := sum_update (fun q => q.count t) r.queue i _
  simp only [List.count_cons, beq_iff_eq] at hsum
  omega

theorem tally_congr {f g : Pc → Nat} {r r' : Runtime m} (h : ∀ i, f (r'.pc i) = g (r.pc i)) :
    r'.tally f = r.tally g :=
  Finset.sum_congr rfl fun i _ => h i

theorem queued_pop (r : Runtime m) {i : Fin (m + 1)} {s : TaskId} {rest : List TaskId}
    (hq : r.queue i = s :: rest) (t : TaskId) :
    ∑ j, (Function.update r.queue i rest j).count t + (if s = t then 1 else 0) = r.queued t := by
  have hsum : ∑ j, (Function.update r.queue i rest j).count t + (r.queue i).count t =
      r.queued t + rest.count t := sum_update (fun q => q.count t) r.queue i _
  rw [hq] at hsum
  simp only [List.count_cons, beq_iff_eq] at hsum
  omega

theorem setPc_pc (r : Runtime m) (i j : Fin (m + 1)) (p : Pc) :
    (r.setPc i p).pc j = if j = i then p else r.pc j := by
  by_cases hj : j = i
  · subst hj; simp [setPc]
  · simp [setPc, hj]

section Places

variable {r : Runtime m} {i : Fin (m + 1)} {p : Pc} {P : Pc → Prop}

/-- What holds of the place that a thread moves to, and of all places before, holds of all. -/
theorem forall_setPc (hp : P p) (h : ∀ j, P (r.pc j)) (j : Fin (m + 1)) :
    P ((r.setPc i p).pc j) := by
  rw [setPc_pc]
  split
  · exact hp
  · exact h j

theorem of_setPc {j : Fin (m + 1)} (h : P ((r.setPc i p).pc j)) : P p ∨ P (r.pc j) := by
  rw [setPc_pc] at h
  split at h
  · exact Or.inl h
  · exact Or.inr h

theorem setPc_iff (h : P p ↔ P (r.pc i)) (j : Fin (m + 1)) :
    P ((r.setPc i p).pc j) ↔ P (r.pc j) := by
  rw [setPc_pc]
  split
  · rename_i hj
    subst hj
    exact h
  · rfl

end Places

@[simp] theorem starts_record (r : Runtime m) (ev : Event) (t : TaskId) :
    (r.record ev).starts t = r.starts t + if ev = .start t then 1 else 0 := by
  simp only [starts, record, List.count_append, List.count_singleton, beq_iff_eq]

@[simp] theorem finishes_record (r : Runtime m) (ev : Event) (t : TaskId) :
    (r.record ev).finishes t = r.finishes t + if ev = .finish t then 1 else 0 := by
  simp only [finishes, record, List.count_append, List.count_singleton, beq_iff_eq]

@[simp] theorem walked_record (r : Runtime m) (ev : Event) (t : TaskId) :
    (r.record ev).walked t = r.walked t + if ev = .walk t then 1 else 0 := by
  simp only [walked, record, List.count_append, List.count_singleton, beq_iff_eq]

theorem tally_pos {f : Pc → Nat} {r : Runtime m} {i : Fin (m + 1)} (h : 0 < f (r.pc i)) :
    0 < r.tally f :=
  Finset.sum_pos' (fun _ _ => Nat.zero_le _) ⟨i, Finset.mem_univ i, h⟩

theorem tally_eq_zero {f : Pc → Nat} {r : Runtime m} (h : ∀ i, f (r.pc i) = 0) : r.tally f = 0 :=
  Finset.sum_eq_zero fun i _ => h i

theorem tally_two {f : Pc → Nat} {r : Runtime m} {i j : Fin (m + 1)} (hij : i ≠ j) :
    f (r.pc i) + f (r.pc j) ≤ r.tally f :=
  Finset.add_le_sum (f := fun i => f (r.pc i)) (fun _ _ => Nat.zero_le _) (Finset.mem_univ i)
    (Finset.mem_univ j) hij

theorem exists_of_tally_pos {p : Pc → Prop} [DecidablePred p] {r : Runtime m}
    (h : 0 < r.tally fun q => if p q then 1 else 0) : ∃ i, p (r.pc i) := by
  by_contra hno
  push Not at hno
  have hzero : r.tally (fun q => if p q then 1 else 0) = 0 :=
    tally_eq_zero fun i => if_neg (hno i)
  omega

end Runtime

/-- Edges are only walked, never put back. -/
theorem Runtime.Move.pending_le {nodes : Finset TaskId} {r r' : Runtime m} {i : Fin (m + 1)}
    (h : Move r i r') (t : TaskId) : r'.pending nodes t ≤ r.pending nodes t := by
  obtain ⟨l, hl⟩ := h.log
  have hwalked : ∀ u, r.walked u ≤ r'.walked u := by
    intro u
    unfold walked
    rw [hl, List.count_append]
    exact Nat.le_add_right _ _
  have hcongr : r'.pending nodes t = Release.pending nodes r.outs r'.walked t :=
    Release.pending_congr (fun u _ => h.shape.outs u) (fun _ _ => rfl) t
  rw [hcongr]
  exact Release.pending_anti hwalked t

/-- Every started task had all its predecessors finished. -/
def InOrder (nodes : Finset TaskId) (outs : TaskId → List TaskId) (log : List Event) : Prop :=
  ∀ l₁ t l₂, log = l₁ ++ .start t :: l₂ → ∀ u ∈ nodes, t ∈ outs u → .finish u ∈ l₁

theorem InOrder.concat {nodes : Finset TaskId} {outs : TaskId → List TaskId} {log : List Event}
    (h : InOrder nodes outs log) {ev : Event}
    (hev : ∀ t, ev = .start t → ∀ u ∈ nodes, t ∈ outs u → .finish u ∈ log) :
    InOrder nodes outs (log ++ [ev]) := by
  intro l₁ t l₂ heq u hu ht
  rcases List.eq_nil_or_concat l₂ with rfl | ⟨l₂, x, rfl⟩
  · obtain ⟨hlog, hlast⟩ := List.append_inj' heq rfl
    rw [← hlog]
    exact hev t (List.cons.inj hlast).1 u hu ht
  · rw [List.concat_eq_append, ← List.cons_append, ← List.append_assoc] at heq
    exact h l₁ t l₂ (List.append_inj' heq rfl).1 u hu ht

/-- The invariant of the tasks `nodes` on their way through queues, hands and threads, while
`roots` are still to be spawned. An object outside of the graph that tasks lead to, an end
task, has been counted `extra` times more than there are edges into it. -/
structure Flow (nodes : Finset TaskId) (extra : TaskId → Int) (roots : List TaskId)
    (r : Runtime m) : Prop where
  full : ∀ t ∈ nodes, r.outs t ≠ []
  kind : ∀ t ∈ nodes, (r.heap t).isAceMesh = true
  inside : ∀ i, (r.pc i).Inside r.heap
  place : ∀ t, roots.count t + r.queued t + r.inHand t + r.starts t =
    if t ∈ nodes ∧ r.pending nodes t = 0 then 1 else 0
  walking : ∀ i t k, (r.pc i).At r.heap t k → t ∈ nodes ∧ r.walked t = k
  running : ∀ i t, (r.pc i).BeforeRestore t → t ∈ nodes
  started : ∀ t ∈ nodes, r.starts t =
    r.walkers t + if r.walked t = (r.outs t).length then 1 else 0
  unstarted : ∀ t, r.starts t = 0 → r.walked t = 0
  finished : ∀ t, r.bodies t + r.finishes t = r.starts t
  count : ∀ t ∈ nodes, r.starts t = 0 → (r.heap t).refCount = r.pending nodes t
  outside : ∀ t, t ∉ nodes → (r.heap t).refCount = r.pending nodes t + extra t
  restored : ∀ t ∈ nodes, (r.heap t).reused = true → r.starts t ≠ 0 →
    (∀ i, ¬ (r.pc i).BeforeRestore t) → (r.heap t).refCount = (r.heap t).backupRef
  order : InOrder nodes r.outs r.log

namespace Flow

variable {nodes : Finset TaskId} {extra : TaskId → Int} {roots : List TaskId} {r : Runtime m}

/-! ## What the invariant says about one task -/

theorem starts_le (h : Flow nodes extra roots r) (t : TaskId) : r.starts t ≤ 1 := by
  have := h.place t
  split at this <;> omega

theorem mem_of_starts (h : Flow nodes extra roots r) {t : TaskId} (ht : r.starts t ≠ 0) :
    t ∈ nodes ∧ r.pending nodes t = 0 := by
  have := h.place t
  split at this
  · assumption
  · omega

theorem mem_of_hand (h : Flow nodes extra roots r) {i : Fin (m + 1)} {t : TaskId}
    (hi : (r.pc i).hand = some t) :
    t ∈ nodes ∧ r.pending nodes t = 0 ∧ r.starts t = 0 := by
  have hpos : 0 < r.inHand t := tally_pos (i := i) (by simp [hi])
  have := h.place t
  split at this
  · rename_i hmem
    exact ⟨hmem.1, hmem.2, by omega⟩
  · omega

/-- A thread before an edge works for a task that is started once. -/
theorem starts_of_at (h : Flow nodes extra roots r) {i : Fin (m + 1)} {t : TaskId} {k : Nat}
    (hi : (r.pc i).At r.heap t k) : r.starts t = 1 := by
  have hpos : 0 < r.walkers t := tally_pos (i := i) (by
    have : (r.pc i).Active r.heap t := ⟨k, hi⟩
    simp [this])
  have := h.started t (h.walking i t k hi).1
  have := h.starts_le t
  omega

theorem outs_pos (h : Flow nodes extra roots r) {t : TaskId} (ht : t ∈ nodes) :
    0 < (r.outs t).length :=
  List.length_pos_iff.mpr (h.full t ht)

/-- A task that has not been restored is before its first edge. -/
theorem at_of_beforeRestore (h : Flow nodes extra roots r) {i : Fin (m + 1)} {t : TaskId}
    (hi : (r.pc i).BeforeRestore t) : (r.pc i).At r.heap t 0 := by
  have hpos := h.outs_pos (h.running i t hi)
  rcases hi with hi | hi
  · exact ⟨by rw [hi]; rfl, hpos⟩
  · exact ⟨by rw [hi]; rfl, hpos⟩

/-- Edges are walked only after the body. -/
theorem finished_of_walked (h : Flow nodes extra roots r) {t : TaskId} (ht : r.walked t ≠ 0) :
    r.finishes t = 1 := by
  have hstart : r.starts t ≠ 0 := fun hz => ht (h.unstarted t hz)
  have hone := h.starts_le t
  have hfin := h.finished t
  have hbody : r.bodies t = 0 := by
    by_contra hb
    obtain ⟨i, hi⟩ := exists_of_tally_pos (p := (· = .body t)) (Nat.pos_of_ne_zero hb)
    exact ht (h.walking i t 0 (h.at_of_beforeRestore (Or.inl hi))).2
  omega

/-- A thread before an edge is the only one. -/
theorem walkers_eq (h : Flow nodes extra roots r) {i : Fin (m + 1)} {t : TaskId} {k : Nat}
    (hi : (r.pc i).At r.heap t k) : r.walkers t = 1 := by
  obtain ⟨hmem, hk⟩ := h.walking i t k hi
  have hone := h.starts_of_at hi
  have hstart := h.started t hmem
  have hlt : k < (r.outs t).length := hi.2
  rw [if_neg (by rw [hk]; omega)] at hstart
  omega

theorem at_unique (h : Flow nodes extra roots r) {i j : Fin (m + 1)} {t : TaskId} {k l : Nat}
    (hi : (r.pc i).At r.heap t k) (hj : (r.pc j).At r.heap t l) : i = j := by
  by_contra hij
  have hone := h.walkers_eq hi
  have htwo : _ ≤ r.walkers t :=
    tally_two (f := fun p => if p.Active r.heap t then 1 else 0) (r := r) hij
  have hia : (r.pc i).Active r.heap t := ⟨k, hi⟩
  have hja : (r.pc j).Active r.heap t := ⟨l, hj⟩
  simp only [hia, hja, if_true] at htwo
  omega

/-- A released task has all its predecessors finished. -/
theorem finished_of_released (h : Flow nodes extra roots r) {t u : TaskId}
    (ht : r.pending nodes t = 0) (hu : u ∈ nodes) (hmem : t ∈ r.outs u) :
    .finish u ∈ r.log := by
  have hleft := Release.pending_eq_zero_iff.mp ht u hu
  have hwalked : r.walked u ≠ 0 := by
    intro hz
    rw [hz, List.drop_zero] at hleft
    exact hleft hmem
  have hfin := h.finished_of_walked hwalked
  exact List.count_pos_iff.mp (by unfold finishes at hfin; omega)

/-- A task that waits for an edge has not begun to walk its own. -/
theorem walked_of_pending (h : Flow nodes extra roots r) {t : TaskId}
    (ht : r.pending nodes t ≠ 0) : r.walked t = 0 := by
  refine h.unstarted t ?_
  by_contra hs
  exact ht (h.mem_of_starts hs).2

/-- All tasks before a released task have finished. -/
theorem finished_of_reach (h : Flow nodes extra roots r) {u t : TaskId}
    (hreach : Relation.TransGen (Release.Edge nodes r.outs) u t)
    (ht : r.pending nodes t = 0) : .finish u ∈ r.log := by
  have hdirect : ∀ {v w}, Release.Edge nodes r.outs v w → r.pending nodes w = 0 →
      .finish v ∈ r.log := fun hedge hw => h.finished_of_released hw hedge.1 hedge.2.2
  induction hreach with
  | single hedge => exact hdirect hedge ht
  | @tail v w _ hedge ih =>
      -- the last one before `t` has finished, so it was released itself
      have hfin : r.finishes v ≠ 0 :=
        Nat.pos_iff_ne_zero.mp (List.count_pos_iff.mpr (hdirect hedge ht))
      have hsum := h.finished v
      exact ih (h.mem_of_starts (by omega)).2

/-- What lies behind a task that is not started is not started. -/
theorem unstarted_of_path (h : Flow nodes extra roots r) {u t : TaskId}
    (hreach : Relation.ReflTransGen (Release.Edge nodes r.outs) u t) (hu : r.starts u = 0) :
    r.starts t = 0 := by
  rcases Relation.reflTransGen_iff_eq_or_transGen.mp hreach with rfl | htrans
  · exact hu
  · by_contra ht
    have hfin : r.finishes u ≠ 0 := Nat.pos_iff_ne_zero.mp
      (List.count_pos_iff.mpr (h.finished_of_reach htrans (h.mem_of_starts ht).2))
    have hsum := h.finished u
    omega

/-- A root that is not pushed is not started. -/
theorem starts_of_root (h : Flow nodes extra roots r) {t : TaskId} (ht : t ∈ roots) :
    r.starts t = 0 := by
  have hcount : 0 < roots.count t := List.count_pos_iff.mpr ht
  have hplace := h.place t
  split at hplace
  · omega
  · omega

/-- A task without edges left to walk is through. -/
theorem through (h : Flow nodes extra roots r) {t : TaskId} (ht : t ∈ nodes)
    (hall : (r.outs t).length ≤ r.walked t) :
    r.walked t = (r.outs t).length ∧ r.finishes t = 1 ∧ r.starts t = 1 := by
  have hpos := h.outs_pos ht
  have hwalked : r.walked t ≠ 0 := by omega
  have hfin := h.finished_of_walked hwalked
  have hle := h.starts_le t
  have hsum := h.finished t
  have hone : r.starts t = 1 := by omega
  refine ⟨?_, hfin, hone⟩
  have hstart := h.started t ht
  by_contra hne
  rw [if_neg hne] at hstart
  obtain ⟨i, k, hk⟩ := exists_of_tally_pos (p := Pc.Active r.heap t) (r := r)
    (by unfold walkers at hstart; omega)
  have hlt : k < (r.outs t).length := hk.2
  have hwk := (h.walking i t k hk).2
  omega

/-- A released task that is not through is somewhere. -/
theorem somewhere (h : Flow nodes extra roots r) {t : TaskId} (ht : t ∈ nodes)
    (hready : r.pending nodes t = 0) (hleft : r.walked t < (r.outs t).length) :
    t ∈ roots ∨ (∃ i, t ∈ r.queue i) ∨ ∃ i, (r.pc i).hand = some t ∨ (r.pc i).Active r.heap t := by
  have hplace := h.place t
  rw [if_pos ⟨ht, hready⟩] at hplace
  by_cases hs : r.starts t = 0
  · -- released and not started
    by_cases hroot : roots.count t = 0
    · by_cases hq : r.queued t = 0
      · have hpos : 0 < r.inHand t := by omega
        obtain ⟨i, hi⟩ := exists_of_tally_pos (p := fun p => p.hand = some t) hpos
        exact Or.inr (Or.inr ⟨i, Or.inl hi⟩)
      · refine Or.inr (Or.inl ?_)
        by_contra hno
        push Not at hno
        exact hq (Finset.sum_eq_zero fun i _ => List.count_eq_zero.mpr (hno i))
    · exact Or.inl (List.count_pos_iff.mp (Nat.pos_of_ne_zero hroot))
  · -- started and not through: a thread is at it
    have hstart := h.started t ht
    rw [if_neg (by omega)] at hstart
    obtain ⟨i, hi⟩ := exists_of_tally_pos (p := Pc.Active r.heap t) (r := r)
      (by unfold walkers at hstart; omega)
    exact Or.inr (Or.inr ⟨i, Or.inr hi⟩)

/-! ## Steps that change no count -/

/-- What a step may do without the invariant noticing: move a released task between the
root list, queues and hands, and move threads along edges they do not walk. -/
theorem same (h : Flow nodes extra roots r) {roots' : List TaskId} {r' : Runtime m}
    (hshape : r.heap.SameShape r'.heap)
    (hcount : ∀ t, (r'.heap t).refCount = (r.heap t).refCount) (hlog : r'.log = r.log)
    (hplace : ∀ t, roots'.count t + r'.queued t + r'.inHand t =
      roots.count t + r.queued t + r.inHand t)
    (hat : ∀ t k, ∀ i, (r'.pc i).At r.heap t k ↔ (r.pc i).At r.heap t k)
    (hbefore : ∀ t, ∀ i, (r'.pc i).BeforeRestore t ↔ (r.pc i).BeforeRestore t)
    (hbody : ∀ t, ∀ i, r'.pc i = .body t ↔ r.pc i = .body t)
    (hin : ∀ i, (r'.pc i).Inside r'.heap) : Flow nodes extra roots' r' := by
  have houts : r'.outs = r.outs := hshape.outs_fun
  have hpending : ∀ t, r'.pending nodes t = r.pending nodes t := by
    intro t
    unfold pending walked
    rw [houts, hlog]
  have hwalkers : ∀ t, r'.walkers t = r.walkers t := by
    intro t
    refine tally_congr fun i => ?_
    have : (r'.pc i).Active r'.heap t ↔ (r.pc i).Active r.heap t :=
      exists_congr fun k => (hshape.at_iff t k _).trans (hat t k i)
    simp [this]
  have hbodies : ∀ t, r'.bodies t = r.bodies t := by
    intro t
    refine tally_congr fun i => ?_
    simp [hbody t i]
  have hstarts : ∀ t, r'.starts t = r.starts t := fun t => by unfold starts; rw [hlog]
  have hfinishes : ∀ t, r'.finishes t = r.finishes t := fun t => by unfold finishes; rw [hlog]
  have hwalked : ∀ t, r'.walked t = r.walked t := fun t => by unfold walked; rw [hlog]
  constructor
  case full =>
    rw [houts]
    exact h.full
  case kind => exact fun t ht => (hshape.isAceMesh t).trans (h.kind t ht)
  case inside => exact hin
  case place =>
    intro t
    rw [hplace, hstarts, hpending]
    exact h.place t
  case walking =>
    intro i t k hi
    rw [hwalked]
    exact h.walking i t k ((hat t k i).mp ((hshape.at_iff t k _).mp hi))
  case running => exact fun i t hi => h.running i t ((hbefore t i).mp hi)
  case started =>
    intro t ht
    rw [hstarts, hwalkers, hwalked, houts]
    exact h.started t ht
  case unstarted =>
    intro t ht
    rw [hstarts] at ht
    rw [hwalked]
    exact h.unstarted t ht
  case finished =>
    intro t
    rw [hbodies, hfinishes, hstarts]
    exact h.finished t
  case count =>
    intro t ht hs
    rw [hstarts] at hs
    rw [hcount, hpending]
    exact h.count t ht hs
  case outside =>
    intro t ht
    rw [hcount, hpending]
    exact h.outside t ht
  case restored =>
    intro t ht hr hs hno
    rw [hshape.reused] at hr
    rw [hstarts] at hs
    rw [hcount, hshape.backupRef]
    exact h.restored t ht hr hs fun i hi => hno i ((hbefore t i).mpr hi)
  case order =>
    rw [hlog, houts]
    exact h.order

theorem quiet (h : Flow nodes extra roots r) {i : Fin (m + 1)} {h' : Heap} {p : Pc}
    (hshape : r.heap.SameShape h') (hcount : ∀ t, (h' t).refCount = (r.heap t).refCount)
    (halike : (r.pc i).Alike r.heap p) (hin : p.Inside r.heap) :
    Flow nodes extra roots ((r.setHeap h').setPc i p) := by
  have hhand : ∀ j, (((r.setHeap h').setPc i p).pc j).hand = (r.pc j).hand := by
    intro j
    rw [setPc_pc]
    split
    · rename_i hj; subst hj; exact halike.hand
    · rfl
  refine h.same hshape hcount rfl ?_ ?_ ?_ ?_ ?_
  · intro t
    have : ((r.setHeap h').setPc i p).inHand t = r.inHand t :=
      tally_congr fun j => by rw [hhand]
    rw [this]
    rfl
  · exact fun t k => setPc_iff (P := fun p => p.At r.heap t k) (halike.walks t k)
  · intro t
    apply setPc_iff (P := fun p => p.BeforeRestore t)
    exact iff_of_false (halike.outside' t) (halike.outside t)
  · intro t
    apply setPc_iff (P := fun p => p = .body t)
    exact iff_of_false (fun hb => halike.outside' t (Or.inl hb))
      (fun hb => halike.outside t (Or.inl hb))
  · intro j
    refine (hshape.inside _).mpr ?_
    exact forall_setPc (P := fun p => p.Inside r.heap) hin h.inside j

theorem pop (h : Flow nodes extra roots r) {i j : Fin (m + 1)} {t : TaskId} {rest : List TaskId}
    (hi : r.pc i = .next) (hq : r.queue j = t :: rest) :
    Flow nodes extra roots { r.setPc i (.hold t) with queue := Function.update r.queue j rest } := by
  refine h.same (Heap.SameShape.refl _) (fun _ => rfl) rfl ?_ ?_ ?_ ?_ ?_
  · intro u
    have hqueue := queued_pop r hq u
    have hhand := inHand_setPc r i (.hold t) u
    simp only [hi, Pc.hand, reduceCtorEq, if_false, Option.some.injEq] at hhand
    change roots.count u + ∑ l, (Function.update r.queue j rest l).count u +
      (r.setPc i (.hold t)).inHand u = _
    omega
  · intro u k
    apply setPc_iff (r := r) (P := fun p => p.At r.heap u k)
    rw [hi]
    exact iff_of_false (Pc.not_at_of_stage rfl u k) (Pc.not_at_of_stage rfl u k)
  · intro u
    apply setPc_iff (r := r) (P := fun p => p.BeforeRestore u)
    simp [hi, Pc.BeforeRestore]
  · intro u
    apply setPc_iff (r := r) (P := fun p => p = .body u)
    simp [hi]
  · exact forall_setPc (r := r) (P := fun p => p.Inside r.heap) trivial h.inside

theorem push (h : Flow nodes extra roots r) {i : Fin (m + 1)} {t succ : TaskId} {k : Nat}
    (hi : r.pc i = .push t k succ) (j : Fin (m + 1)) :
    Flow nodes extra roots ((r.localSpawn j succ).setPc i (.loop t (k + 1))) := by
  refine h.same (Heap.SameShape.refl _) (fun _ => rfl) rfl ?_ ?_ ?_ ?_ ?_
  · intro u
    have hqueue := queued_localSpawn r j succ u
    have hhand := inHand_setPc (r.localSpawn j succ) i (.loop t (k + 1)) u
    have hpush : (r.localSpawn j succ).pc i = .push t k succ := hi
    simp only [hpush, Pc.hand, reduceCtorEq, if_false, Option.some.injEq] at hhand
    change roots.count u + (r.localSpawn j succ).queued u +
      ((r.localSpawn j succ).setPc i (.loop t (k + 1))).inHand u = _
    have : (r.localSpawn j succ).inHand u = r.inHand u := rfl
    omega
  · intro u l
    apply setPc_iff (r := r) (P := fun p => p.At r.heap u l)
    rw [hi, Pc.at_iff (u := t) (k := k + 1) rfl, Pc.at_iff (u := t) (k := k + 1) rfl]
  · intro u
    apply setPc_iff (r := r) (P := fun p => p.BeforeRestore u)
    simp [hi, Pc.BeforeRestore]
  · intro u
    apply setPc_iff (r := r) (P := fun p => p = .body u)
    simp [hi]
  · have hin := h.inside i
    rw [hi] at hin
    exact forall_setPc (r := r) (P := fun p => p.Inside r.heap) hin h.inside

/-- A root is pushed. -/
theorem spawnRoot {t : TaskId} (h : Flow nodes extra (t :: roots) r) (j : Fin (m + 1)) :
    Flow nodes extra roots (r.localSpawn j t) := by
  refine h.same (Heap.SameShape.refl _) (fun _ => rfl) rfl ?_ (fun _ _ _ => Iff.rfl)
    (fun _ _ => Iff.rfl) (fun _ _ => Iff.rfl) h.inside
  intro u
  have hqueue := queued_localSpawn r j t u
  have : (r.localSpawn j t).inHand u = r.inHand u := rfl
  simp only [List.count_cons, beq_iff_eq]
  omega

/-! ## Starting and finishing a body -/

theorem start (h : Flow nodes extra roots r) {i : Fin (m + 1)} {t : TaskId}
    (hi : r.pc i = .hold t) :
    Flow nodes extra roots ((r.setPc i (.body t)).record (.start t)) := by
  obtain ⟨hmem, hready, hnot⟩ := h.mem_of_hand (i := i) (t := t) (by rw [hi]; rfl)
  have hwalked : r.walked t = 0 := h.unstarted t hnot
  have hpos := h.outs_pos hmem
  have hpc : ∀ j, ((r.setPc i (.body t)).record (.start t)).pc j =
      if j = i then .body t else r.pc j := fun j => setPc_pc r i j _
  have hstarts : ∀ u, ((r.setPc i (.body t)).record (.start t)).starts u =
      r.starts u + if t = u then 1 else 0 := by
    intro u
    simp only [starts_record, Event.start.injEq]
    rfl
  have hsameWalked : ∀ u, ((r.setPc i (.body t)).record (.start t)).walked u = r.walked u := by
    intro u
    simp only [walked_record, reduceCtorEq, if_false]
    rfl
  have hpending : ∀ u, ((r.setPc i (.body t)).record (.start t)).pending nodes u =
      r.pending nodes u := fun u => Release.pending_congr (fun _ _ => rfl)
    (fun v _ => hsameWalked v) u
  have hbodyAt : ∀ u k, (Pc.body t).At r.heap u k ↔ u = t ∧ k = 0 ∧ 0 < (r.outs t).length :=
    Pc.at_iff rfl
  have hholdAt : ∀ u k, ¬ (r.pc i).At r.heap u k := by
    rw [hi]
    exact Pc.not_at_of_stage rfl
  constructor
  case full => exact h.full
  case kind => exact h.kind
  case inside => exact forall_setPc (P := fun p => p.Inside r.heap) trivial h.inside
  case place =>
    intro u
    have hplace := h.place u
    have hhand := inHand_setPc r i (.body t) u
    simp only [hi, Pc.hand, reduceCtorEq, if_false, Option.some.injEq] at hhand
    rw [hstarts, hpending, ← hplace]
    change roots.count u + r.queued u + (r.setPc i (.body t)).inHand u + _ = _
    omega
  case walking =>
    intro j u k hj
    rw [hsameWalked]
    rcases of_setPc (P := fun p => p.At r.heap u k) hj with hj | hj
    · obtain ⟨rfl, rfl, -⟩ := (hbodyAt u k).mp hj
      exact ⟨hmem, hwalked⟩
    · exact h.walking j u k hj
  case running =>
    intro j u hj
    rcases of_setPc (P := fun p => p.BeforeRestore u) hj with (hj | hj) | hj
    · cases hj
      exact hmem
    · cases hj
    · exact h.running j u hj
  case started =>
    intro u hu
    have hold := h.started u hu
    have hwalkers := walkers_setPc r i (.body t) u
    have hno : ¬ (r.pc i).Active r.heap u := fun ⟨k, hk⟩ => hholdAt u k hk
    have hyes : (Pc.body t).Active r.heap u ↔ t = u := by
      constructor
      · rintro ⟨k, hk⟩
        exact ((hbodyAt u k).mp hk).1.symm
      · rintro rfl
        exact ⟨0, (hbodyAt t 0).mpr ⟨rfl, rfl, hpos⟩⟩
    simp only [hno, hyes, if_false] at hwalkers
    rw [hstarts, hsameWalked]
    change _ = (r.setPc i (.body t)).walkers u + if r.walked u = (r.outs u).length then 1 else 0
    omega
  case unstarted =>
    intro u hu
    rw [hstarts] at hu
    rw [hsameWalked]
    exact h.unstarted u (by omega)
  case finished =>
    intro u
    have hold := h.finished u
    have hbodies := bodies_setPc r i (.body t) u
    simp only [hi, reduceCtorEq, if_false, Pc.body.injEq] at hbodies
    rw [hstarts, finishes_record]
    simp only [reduceCtorEq, if_false]
    change (r.setPc i (.body t)).bodies u + (r.finishes u + 0) = _
    omega
  case count =>
    intro u hu hs
    rw [hstarts] at hs
    rw [hpending]
    exact h.count u hu (by omega)
  case outside =>
    intro u hu
    rw [hpending]
    exact h.outside u hu
  case restored =>
    intro u hu hr hs hno
    have hut : t ≠ u := by
      rintro rfl
      refine hno i ?_
      rw [hpc, if_pos rfl]
      exact Or.inl rfl
    rw [hstarts, if_neg hut] at hs
    refine h.restored u hu hr hs fun j hj => ?_
    by_cases hji : j = i
    · subst hji
      rw [hi] at hj
      simp [Pc.BeforeRestore] at hj
    · refine hno j ?_
      rw [hpc, if_neg hji]
      exact hj
  case order =>
    refine h.order.concat ?_
    rintro u ⟨⟩ v hv hmem
    exact h.finished_of_released hready hv hmem

theorem finish (h : Flow nodes extra roots r) {i : Fin (m + 1)} {t : TaskId}
    (hi : r.pc i = .body t) :
    Flow nodes extra roots ((r.setPc i (.restore t)).record (.finish t)) := by
  have hsameStarts : ∀ u, ((r.setPc i (.restore t)).record (.finish t)).starts u =
      r.starts u := by
    intro u
    simp only [starts_record, reduceCtorEq, if_false]
    rfl
  have hsameWalked : ∀ u, ((r.setPc i (.restore t)).record (.finish t)).walked u =
      r.walked u := by
    intro u
    simp only [walked_record, reduceCtorEq, if_false]
    rfl
  have hpending : ∀ u, ((r.setPc i (.restore t)).record (.finish t)).pending nodes u =
      r.pending nodes u := fun u => Release.pending_congr (fun _ _ => rfl)
    (fun v _ => hsameWalked v) u
  have hat : ∀ u k, (Pc.restore t).At r.heap u k ↔ (r.pc i).At r.heap u k := by
    intro u k
    rw [hi, Pc.at_iff (u := t) (k := 0) rfl, Pc.at_iff (u := t) (k := 0) rfl]
  have hbefore : ∀ u j, ((r.setPc i (.restore t)).pc j).BeforeRestore u ↔
      (r.pc j).BeforeRestore u := by
    intro u
    apply setPc_iff (P := fun p => p.BeforeRestore u)
    simp [hi, Pc.BeforeRestore]
  constructor
  case full => exact h.full
  case kind => exact h.kind
  case inside => exact forall_setPc (P := fun p => p.Inside r.heap) trivial h.inside
  case place =>
    intro u
    have hplace := h.place u
    have hhand := inHand_setPc r i (.restore t) u
    simp only [hi, Pc.hand, reduceCtorEq, if_false] at hhand
    rw [hsameStarts, hpending, ← hplace]
    change roots.count u + r.queued u + (r.setPc i (.restore t)).inHand u + _ = _
    omega
  case walking =>
    intro j u k hj
    rw [hsameWalked]
    exact h.walking j u k ((setPc_iff (P := fun p => p.At r.heap u k) (hat u k) j).mp hj)
  case running => exact fun j u hj => h.running j u ((hbefore u j).mp hj)
  case started =>
    intro u hu
    have hold := h.started u hu
    have hwalkers := walkers_setPc r i (.restore t) u
    have hact : (Pc.restore t).Active r.heap u ↔ (r.pc i).Active r.heap u :=
      exists_congr fun k => hat u k
    simp only [hact] at hwalkers
    rw [hsameStarts, hsameWalked]
    change _ = (r.setPc i (.restore t)).walkers u + if r.walked u = (r.outs u).length then 1 else 0
    omega
  case unstarted =>
    intro u hu
    rw [hsameStarts] at hu
    rw [hsameWalked]
    exact h.unstarted u hu
  case finished =>
    intro u
    have hold := h.finished u
    have hbodies := bodies_setPc r i (.restore t) u
    simp only [hi, reduceCtorEq, if_false, Pc.body.injEq] at hbodies
    rw [hsameStarts, finishes_record]
    simp only [Event.finish.injEq]
    change (r.setPc i (.restore t)).bodies u + (r.finishes u + _) = _
    omega
  case count =>
    intro u hu hs
    rw [hsameStarts] at hs
    rw [hpending]
    exact h.count u hu hs
  case outside =>
    intro u hu
    rw [hpending]
    exact h.outside u hu
  case restored =>
    intro u hu hr hs hno
    rw [hsameStarts] at hs
    exact h.restored u hu hr hs fun j hj => hno j ((hbefore u j).mpr hj)
  case order =>
    refine h.order.concat ?_
    rintro u ⟨⟩

theorem restore (h : Flow nodes extra roots r) {i : Fin (m + 1)} {t : TaskId}
    (hi : r.pc i = .restore t) :
    Flow nodes extra roots ((r.setHeap (if (r.heap t).reused then r.heap.restoreRefCount t
      else r.heap)).setPc i (.loop t 0)) := by
  have hmem : t ∈ nodes := h.running i t (Or.inr hi)
  have hi0 : (r.pc i).At r.heap t 0 := h.at_of_beforeRestore (Or.inr hi)
  have hone := h.starts_of_at hi0
  have hshape := r.heap.sameShape_restore t
  have hcount := r.heap.refCount_restore t
  generalize hh : (if (r.heap t).reused then r.heap.restoreRefCount t else r.heap) = h' at *
  have hpc : ∀ j, ((r.setHeap h').setPc i (.loop t 0)).pc j =
      if j = i then .loop t 0 else r.pc j := fun j => setPc_pc _ i j _
  have hpending : ∀ u, ((r.setHeap h').setPc i (.loop t 0)).pending nodes u = r.pending nodes u :=
    fun u => Release.pending_congr (fun v _ => hshape.outs v) (fun _ _ => rfl) u
  have hat : ∀ u k j, (((r.setHeap h').setPc i (.loop t 0)).pc j).At h' u k ↔
      (r.pc j).At r.heap u k := by
    intro u k j
    rw [hshape.at_iff]
    apply setPc_iff (r := r.setHeap h') (P := fun p => p.At r.heap u k)
    change _ ↔ (r.pc i).At r.heap u k
    rw [hi, Pc.at_iff (u := t) (k := 0) rfl, Pc.at_iff (u := t) (k := 0) rfl]
  constructor
  case full =>
    intro u hu
    change (h' u).outs ≠ []
    rw [hshape.outs]
    exact h.full u hu
  case kind => exact fun u hu => (hshape.isAceMesh u).trans (h.kind u hu)
  case inside =>
    apply forall_setPc (r := r.setHeap h') (P := fun p => p.Inside h')
    · exact Nat.zero_le _
    · exact fun j => (hshape.inside _).mpr (h.inside j)
  case place =>
    intro u
    have hhand := inHand_setPc (r.setHeap h') i (.loop t 0) u
    have hrestore : (r.setHeap h').pc i = .restore t := hi
    simp only [hrestore, Pc.hand, reduceCtorEq, if_false] at hhand
    rw [hpending, ← h.place u]
    change roots.count u + r.queued u + _ + r.starts u = _
    have : (r.setHeap h').inHand u = r.inHand u := rfl
    omega
  case walking =>
    exact fun j u k hj => h.walking j u k ((hat u k j).mp hj)
  case running =>
    intro j u hj
    rcases of_setPc (r := r.setHeap h') (P := fun p => p.BeforeRestore u) hj with hj | hj
    · simp [Pc.BeforeRestore] at hj
    · exact h.running j u hj
  case started =>
    intro u hu
    have hwalkers : ((r.setHeap h').setPc i (.loop t 0)).walkers u = r.walkers u := by
      refine tally_congr fun j => ?_
      have hact : (((r.setHeap h').setPc i (.loop t 0)).pc j).Active h' u ↔
          (r.pc j).Active r.heap u := exists_congr fun k => hat u k j
      change (if Pc.Active h' u _ then 1 else 0) = _
      simp [hact]
    rw [hwalkers]
    change _ = _ + if r.walked u = (h' u).outs.length then 1 else 0
    rw [hshape.outs]
    exact h.started u hu
  case unstarted => exact h.unstarted
  case finished =>
    intro u
    have hbodies := bodies_setPc (r.setHeap h') i (.loop t 0) u
    have hrestore : (r.setHeap h').pc i = .restore t := hi
    simp only [hrestore, reduceCtorEq, if_false] at hbodies
    have hfin := h.finished u
    change _ + r.finishes u = r.starts u
    have : (r.setHeap h').bodies u = r.bodies u := rfl
    omega
  case count =>
    intro u hu hs
    have hne : u ≠ t := by
      rintro rfl
      change r.starts u = 0 at hs
      omega
    change (h' u).refCount = _
    rw [hpending, hcount, if_neg fun hand => hne hand.1]
    exact h.count u hu hs
  case outside =>
    intro u hu
    have hne : u ≠ t := fun he => hu (he ▸ hmem)
    change (h' u).refCount = _
    rw [hpending, hcount, if_neg fun hand => hne hand.1]
    exact h.outside u hu
  case restored =>
    intro u hu hr hs hno
    change (h' u).reused = true at hr
    change (h' u).refCount = (h' u).backupRef
    rw [hshape.reused] at hr
    rw [hcount, hshape.backupRef]
    by_cases hut : u = t
    · subst hut
      simp [hr]
    · rw [if_neg fun hand => hut hand.1]
      refine h.restored u hu hr hs fun j hj => ?_
      by_cases hji : j = i
      · subst hji
        rw [hi] at hj
        rcases hj with hj | hj
        · cases hj
        · cases hj; exact hut rfl
      · refine hno j ?_
        rw [hpc, if_neg hji]
        exact hj
  case order =>
    change InOrder nodes (fun v => (h' v).outs) r.log
    rw [hshape.outs_fun]
    exact h.order

/-! ## Walking an edge -/

/-- Thread `i` walks edge `k` of `t`, to `succ`, and gets to the position `p`. -/
structure Walk (r : Runtime m) (i : Fin (m + 1)) (t succ : TaskId) (k : Nat) (p : Pc) :
    Prop where
  stage : (r.pc i).stage r.heap = some (t, k)
  next : (r.outs t)[k]? = some succ
  hand : (r.pc i).hand = none
  out : ∀ u, ¬ (r.pc i).BeforeRestore u
  out' : ∀ u, ¬ p.BeforeRestore u
  hand' : p.hand = if (r.heap succ).refCount - 1 = 0 then some succ else none
  walks' : ∀ u j, p.At r.heap u j ↔ u = t ∧ j = k + 1 ∧ k + 1 < (r.outs t).length
  inside : p.Inside r.heap

namespace Walk

variable {i : Fin (m + 1)} {t succ : TaskId} {k : Nat} {p : Pc}

section

variable (w : Walk r i t succ k p)
include w

theorem at_old : (r.pc i).At r.heap t k :=
  ⟨w.stage, (List.getElem?_eq_some_iff.mp w.next).1⟩

theorem active_old (u : TaskId) : (r.pc i).Active r.heap u ↔ u = t := by
  constructor
  · rintro ⟨l, hl⟩
    rw [Pc.at_iff w.stage] at hl
    exact hl.1
  · rintro rfl
    exact ⟨k, w.at_old⟩

theorem active_new (u : TaskId) : p.Active r.heap u ↔ u = t ∧ k + 1 < (r.outs t).length := by
  constructor
  · rintro ⟨l, hl⟩
    obtain ⟨hut, -, hlt⟩ := (w.walks' u l).mp hl
    exact ⟨hut, hlt⟩
  · rintro ⟨hut, hlt⟩
    exact ⟨k + 1, (w.walks' u _).mpr ⟨hut, rfl, hlt⟩⟩

end

theorem starts (r : Runtime m) (i : Fin (m + 1)) (t succ : TaskId) (p : Pc) (u : TaskId) :
    ((r.walkEdge t succ).setPc i p).starts u = r.starts u := by
  change ((r.setHeap _).record (.walk t)).starts u = _
  simp only [starts_record, reduceCtorEq, if_false]
  rfl

theorem finishes (r : Runtime m) (i : Fin (m + 1)) (t succ : TaskId) (p : Pc) (u : TaskId) :
    ((r.walkEdge t succ).setPc i p).finishes u = r.finishes u := by
  change ((r.setHeap _).record (.walk t)).finishes u = _
  simp only [finishes_record, reduceCtorEq, if_false]
  rfl

theorem walked (r : Runtime m) (i : Fin (m + 1)) (t succ : TaskId) (p : Pc) :
    ((r.walkEdge t succ).setPc i p).walked = Function.update r.walked t (r.walked t + 1) := by
  ext u
  change ((r.setHeap _).record (.walk t)).walked u = _
  simp only [walked_record, Event.walk.injEq]
  by_cases hut : t = u
  · subst hut
    rw [if_pos rfl, Function.update_self]
    rfl
  · rw [if_neg hut, Function.update_of_ne (Ne.symm hut)]
    rfl

theorem outs (r : Runtime m) (i : Fin (m + 1)) (t succ : TaskId) (p : Pc) :
    ((r.walkEdge t succ).setPc i p).outs = r.outs :=
  (r.heap.sameShape_decrement succ).outs_fun

theorem walkers (r : Runtime m) (i : Fin (m + 1)) (t succ : TaskId) (p : Pc) (u : TaskId) :
    ((r.walkEdge t succ).setPc i p).walkers u + (if (r.pc i).Active r.heap u then 1 else 0) =
      r.walkers u + if p.Active r.heap u then 1 else 0 := by
  have hact : ((r.walkEdge t succ).setPc i p).walkers u =
      ((r.walkEdge t succ).setPc i p).tally fun p => if p.Active r.heap u then 1 else 0 := by
    apply tally_congr
    intro j
    have hiff := (r.heap.sameShape_decrement succ).active_iff u
      (((r.walkEdge t succ).setPc i p).pc j)
    change (if Pc.Active (r.heap.decrementRefCount succ) u _ then 1 else 0) = _
    simp [hiff]
  rw [hact]
  exact tally_setPc (fun p => if p.Active r.heap u then 1 else 0) (r.walkEdge t succ) i p

variable (w : Walk r i t succ k p) (h : Flow nodes extra roots r)
include w h

theorem mem : t ∈ nodes := (h.walking i t k w.at_old).1

theorem walked_old : r.walked t = k := (h.walking i t k w.at_old).2

/-- One edge fewer is left into `succ`. -/
theorem pending (u : TaskId) : r.pending nodes u =
    ((r.walkEdge t succ).setPc i p).pending nodes u + if u = succ then 1 else 0 := by
  have hnext : (r.outs t)[r.walked t]? = some succ := by
    rw [w.walked_old h]
    exact w.next
  have hwalk : Release.pending nodes r.outs r.walked u = _ :=
    Release.pending_walk (w.mem h) hnext u
  unfold Runtime.pending
  rw [hwalk, walked, outs]

theorem succ_unstarted : r.starts succ = 0 := by
  by_contra hs
  have hzero := (h.mem_of_starts hs).2
  have hpending := w.pending h succ
  rw [if_pos rfl] at hpending
  omega

/-- The counter says whether this was the last edge into a task. -/
theorem last_iff (hkeep : succ ∉ nodes → (r.heap succ).refCount ≠ 1) :
    (r.heap succ).refCount - 1 = 0 ↔
      succ ∈ nodes ∧ ((r.walkEdge t succ).setPc i p).pending nodes succ = 0 := by
  have hpending := w.pending h succ
  rw [if_pos rfl] at hpending
  by_cases hsucc : succ ∈ nodes
  · have hcount := h.count succ hsucc (w.succ_unstarted h)
    simp only [hsucc, true_and]
    omega
  · have hcount := hkeep hsucc
    simp only [hsucc, false_and, iff_false]
    omega

theorem place (hkeep : succ ∉ nodes → (r.heap succ).refCount ≠ 1) (u : TaskId) :
    roots.count u + ((r.walkEdge t succ).setPc i p).queued u +
      ((r.walkEdge t succ).setPc i p).inHand u + ((r.walkEdge t succ).setPc i p).starts u =
      if u ∈ nodes ∧ ((r.walkEdge t succ).setPc i p).pending nodes u = 0 then 1 else 0 := by
  have hplace := h.place u
  have hpending := w.pending h u
  have hhand := inHand_setPc (r.walkEdge t succ) i p u
  have hnone : ((r.walkEdge t succ).pc i).hand = none := w.hand
  have hsame : (r.walkEdge t succ).inHand u = r.inHand u := rfl
  rw [hnone, w.hand'] at hhand
  rw [starts]
  change roots.count u + r.queued u + ((r.walkEdge t succ).setPc i p).inHand u + _ = _
  by_cases hus : u = succ
  · subst hus
    have hlast := w.last_iff h hkeep
    rw [if_pos rfl] at hpending
    rw [if_neg fun hand => by omega] at hplace
    by_cases hzero : (r.heap u).refCount - 1 = 0
    · rw [if_pos hzero] at hhand
      rw [if_pos (hlast.mp hzero)]
      simp only [reduceCtorEq, if_false, if_true] at hhand
      omega
    · rw [if_neg hzero] at hhand
      rw [if_neg fun hand => hzero (hlast.mpr hand)]
      simp only [reduceCtorEq, if_false] at hhand
      omega
  · rw [if_neg hus, Nat.add_zero] at hpending
    have hnot : (if (r.heap succ).refCount - 1 = 0 then some succ else none) ≠ some u := by
      split
      · exact fun hs => hus (Option.some.inj hs).symm
      · exact Option.some_ne_none u |>.symm
    rw [if_neg hnot] at hhand
    simp only [reduceCtorEq, if_false] at hhand
    rw [← hpending, ← hplace]
    omega

theorem started {u : TaskId} (hu : u ∈ nodes) :
    ((r.walkEdge t succ).setPc i p).starts u = ((r.walkEdge t succ).setPc i p).walkers u +
      if ((r.walkEdge t succ).setPc i p).walked u =
        (((r.walkEdge t succ).setPc i p).outs u).length then 1 else 0 := by
  have hold := h.started u hu
  have hwalkers := walkers r i t succ p u
  simp only [w.active_old, w.active_new] at hwalkers
  rw [starts, walked, outs]
  by_cases hut : u = t
  · subst hut
    have hlt : k < (r.outs u).length := w.at_old.2
    have hone := h.starts_of_at w.at_old
    have hwalker := h.walkers_eq w.at_old
    rw [Function.update_self, w.walked_old h]
    simp only [true_and, if_true] at hwalkers
    by_cases hlast : k + 1 < (r.outs u).length
    · rw [if_pos hlast] at hwalkers
      rw [if_neg (by omega)]
      omega
    · rw [if_neg hlast] at hwalkers
      rw [if_pos (by omega)]
      omega
  · simp only [hut, false_and, if_false] at hwalkers
    rw [Function.update_of_ne hut]
    omega

theorem walking {j : Fin (m + 1)} {u : TaskId} {l : Nat}
    (hj : (((r.walkEdge t succ).setPc i p).pc j).At r.heap u l) :
    u ∈ nodes ∧ ((r.walkEdge t succ).setPc i p).walked u = l := by
  have hold : (if j = i then p else r.pc j).At r.heap u l := by
    have hpc := setPc_pc (r.walkEdge t succ) i j p
    rw [hpc] at hj
    exact hj
  rw [walked]
  by_cases hji : j = i
  · rw [if_pos hji] at hold
    obtain ⟨rfl, rfl, -⟩ := (w.walks' u l).mp hold
    exact ⟨w.mem h, by rw [Function.update_self, w.walked_old h]⟩
  · rw [if_neg hji] at hold
    have hut : u ≠ t := by
      rintro rfl
      exact hji (h.at_unique hold w.at_old)
    rw [Function.update_of_ne hut]
    exact h.walking j u l hold

theorem refCount (u : TaskId) (x : Int) (hx : (r.heap u).refCount = r.pending nodes u + x) :
    (((r.walkEdge t succ).setPc i p).heap u).refCount =
      ((r.walkEdge t succ).setPc i p).pending nodes u + x := by
  have hpending := w.pending h u
  change (r.heap.decrementRefCount succ u).refCount = _
  rw [r.heap.refCount_decrement]
  by_cases hus : u = succ
  · rw [if_pos hus] at hpending ⊢
    omega
  · rw [if_neg hus] at hpending ⊢
    omega

end Walk

theorem walk (h : Flow nodes extra roots r) {i : Fin (m + 1)} {t succ : TaskId} {k : Nat} {p : Pc}
    (w : Walk r i t succ k p) (hkeep : succ ∉ nodes → (r.heap succ).refCount ≠ 1) :
    Flow nodes extra roots ((r.walkEdge t succ).setPc i p) := by
  have hshape := r.heap.sameShape_decrement succ
  have hpc : ∀ j, ((r.walkEdge t succ).setPc i p).pc j = if j = i then p else r.pc j :=
    fun j => setPc_pc _ i j _
  constructor
  case full =>
    rw [Walk.outs]
    exact h.full
  case kind => exact fun u hu => (hshape.isAceMesh u).trans (h.kind u hu)
  case inside =>
    intro j
    apply (hshape.inside _).mpr
    exact forall_setPc (r := r.walkEdge t succ) (P := fun p => p.Inside r.heap) w.inside h.inside j
  case place => exact w.place h hkeep
  case walking => exact fun j u l hj => w.walking h ((hshape.at_iff u l _).mp hj)
  case running =>
    intro j u hj
    rcases of_setPc (r := r.walkEdge t succ) (P := fun p => p.BeforeRestore u) hj with hj | hj
    · exact absurd hj (w.out' u)
    · exact h.running j u hj
  case started => exact fun u hu => w.started h hu
  case unstarted =>
    intro u hu
    rw [Walk.starts] at hu
    have hut : u ≠ t := by
      rintro rfl
      have hone := h.starts_of_at w.at_old
      omega
    rw [Walk.walked, Function.update_of_ne hut]
    exact h.unstarted u hu
  case finished =>
    intro u
    have hbodies := bodies_setPc (r.walkEdge t succ) i p u
    have hno : (r.walkEdge t succ).pc i ≠ .body u := fun hb => w.out u (Or.inl hb)
    have hno' : p ≠ .body u := fun hb => w.out' u (Or.inl hb)
    rw [if_neg hno, if_neg hno'] at hbodies
    have hsame : (r.walkEdge t succ).bodies u = r.bodies u := rfl
    rw [Walk.finishes, Walk.starts, ← h.finished u]
    omega
  case count =>
    intro u hu hs
    rw [Walk.starts] at hs
    have hcount := w.refCount h u 0 (by rw [Int.add_zero]; exact h.count u hu hs)
    rwa [Int.add_zero] at hcount
  case outside => exact fun u hu => w.refCount h u (extra u) (h.outside u hu)
  case restored =>
    intro u hu hr hs hno
    rw [Walk.starts] at hs
    have hus : u ≠ succ := by
      rintro rfl
      exact hs (w.succ_unstarted h)
    change (r.heap.decrementRefCount succ u).reused = true at hr
    change (r.heap.decrementRefCount succ u).refCount =
      (r.heap.decrementRefCount succ u).backupRef
    rw [hshape.reused] at hr
    rw [r.heap.refCount_decrement, hshape.backupRef, if_neg hus, Int.sub_zero]
    refine h.restored u hu hr hs fun j hj => ?_
    by_cases hji : j = i
    · subst hji
      exact w.out u hj
    · apply hno j
      rw [hpc, if_neg hji]
      exact hj
  case order =>
    have hlog : ((r.walkEdge t succ).setPc i p).log = r.log ++ [.walk t] := rfl
    rw [hlog, Walk.outs]
    apply h.order.concat
    rintro u ⟨⟩

/-! ## Every step -/

/-- A step of a thread that does not take the last count off an end task. -/
theorem turn (h : Flow nodes extra roots r) {i : Fin (m + 1)} {r' : Runtime m} (ht : Turn r i r')
    (hkeep : ∀ t k succ, (r.pc i).At r.heap t k → (r.outs t)[k]? = some succ → succ ∉ nodes →
      (r.heap succ).refCount ≠ 1) : Flow nodes extra roots r' := by
  cases ht with
  | quiet hshape hcount _ _ halike hin => exact h.quiet hshape hcount halike hin
  | pop hi hq => exact h.pop hi hq
  | skip hi hkind =>
      -- only tasks of the graph are released
      obtain ⟨hmem, -, -⟩ := h.mem_of_hand (i := i) (by rw [hi]; rfl)
      rw [h.kind _ hmem] at hkind
      simp at hkind
  | start hi _ => exact h.start hi
  | finish hi => exact h.finish hi
  | restore hi => exact h.restore hi
  | walk hstage hnext hhand hout hout' hhand' hwalks' hin =>
      refine h.walk ⟨hstage, hnext, hhand, hout, hout', hhand', hwalks', hin⟩ fun hsucc => ?_
      exact hkeep _ _ _ ⟨hstage, (List.getElem?_eq_some_iff.mp hnext).1⟩ hnext hsucc
  | push hi => exact h.push hi _

/-- The invariant does not look at the position of the main thread. -/
theorem withMain (h : Flow nodes extra roots r) (mpc : MainPc) :
    Flow nodes extra roots { r with main := mpc } :=
  h.same (Heap.SameShape.refl _) (fun _ => rfl) rfl (fun _ => rfl)
    (fun _ _ _ => Iff.rfl) (fun _ _ => Iff.rfl) (fun _ _ => Iff.rfl) h.inside

end Flow

end AceMesh
