import AceMesh.Round

/-!
# A whole round

From `spawn` to the return of `main_kernel_func`, in any interleaving of the threads. When
the counter of the end task is down to one, no edge is left to walk (`Round.complete`), so
every body has finished and no thread has anything to do but return (`Runtime.Idle`). While
it is not, some released task is in a queue, in a hand or at work.
-/

open AceMesh.TaskDagGraph AceMesh.Runtime

namespace AceMesh

variable {m : Nat}

/-- The thread has no task in hand and no edge to walk: at most it has still to return. -/
structure Pc.Resting (h : Heap) (p : Pc) : Prop where
  hand : p.hand = none
  noEdge : ∀ t k, ¬ p.At h t k
  outside : ∀ t, ¬ p.BeforeRestore t
  inside : p.Inside h

theorem Pc.resting_next (h : Heap) : Pc.next.Resting h :=
  ⟨rfl, Pc.not_at_of_stage rfl, by simp [Pc.BeforeRestore], trivial⟩

theorem Heap.SameShape.resting {h h' : Heap} (hs : h.SameShape h') {p : Pc}
    (hp : p.Resting h) : p.Resting h' where
  hand := hp.hand
  noEdge := fun t k hat => hp.noEdge t k ((hs.at_iff t k p).mp hat)
  outside := hp.outside
  inside := (hs.inside p).mpr hp.inside

/-- A resting thread looks at its own object only. -/
theorem Pc.Resting.congr {h h' : Heap} {p : Pc} (hp : p.Resting h)
    (heq : ∀ t, p.object = some t → h' t = h t) : p.Resting h' := by
  refine ⟨hp.hand, fun t k hat => ?_, hp.outside, ?_⟩
  · refine hp.noEdge t k ?_
    have hobject : p.object = some t := by
      obtain ⟨hstage, -⟩ := hat
      cases p <;> simp_all [Pc.stage, Pc.object]
    have hsame := heq t hobject
    obtain ⟨hstage, hlt⟩ := hat
    refine ⟨?_, by rwa [hsame] at hlt⟩
    cases p with
    | vert u =>
        cases hobject
        rw [← hstage, Pc.stage, Pc.stage, hsame]
    | next => exact hstage
    | hold _ => exact hstage
    | body _ => exact hstage
    | restore _ => exact hstage
    | loop _ _ => exact hstage
    | push _ _ _ => exact hstage
    | ret _ _ => exact hstage
  · cases p with
    | loop u k =>
        show k ≤ (h' u).successorTasks.length
        rw [heq u rfl]
        exact hp.inside
    | push u k succ => exact absurd hp.hand (by simp [Pc.hand])
    | next => trivial
    | hold _ => trivial
    | body _ => trivial
    | restore _ => trivial
    | vert _ => trivial
    | ret _ _ => trivial

namespace Runtime

/-- No task is on its way. -/
structure Idle (r : Runtime m) : Prop where
  queue : ∀ i, r.queue i = []
  resting : ∀ i, (r.pc i).Resting r.heap

theorem Idle.congr {r r' : Runtime m} (h : r.Idle) (hqueue : r'.queue = r.queue)
    (hpc : r'.pc = r.pc) (heq : ∀ i t, (r.pc i).object = some t → r'.heap t = r.heap t) :
    r'.Idle := by
  refine ⟨fun i => by rw [hqueue]; exact h.queue i, fun i => ?_⟩
  rw [hpc]
  exact (h.resting i).congr (heq i)

/-- Between rounds a thread can only return. -/
structure SameWork (r r' : Runtime m) : Prop where
  shape : r.heap.SameShape r'.heap
  refCount : ∀ t, (r'.heap t).refCount = (r.heap t).refCount
  deleted : ∀ t, (r.heap t).reused = true → (r'.heap t).deleted = (r.heap t).deleted
  frame : ∀ t, (∀ i, (r.pc i).object ≠ some t) → r'.heap t = r.heap t
  object : ∀ i t, (r'.pc i).object = some t → (r.pc i).object = some t
  graph : ∃ h, r'.graph = { r.graph with heap := h }
  main : r'.main = r.main
  log : r'.log = r.log

theorem Idle.turn {r r' : Runtime m} (h : r.Idle) {i : Fin (m + 1)} (ht : Turn r i r') :
    r'.Idle ∧ r.SameWork r' := by
  have hrest := h.resting i
  cases ht with
  | @quiet h' p hshape hcount hdel hframe halike hin =>
      have hpc : ∀ j, ((r.setHeap h').setPc i p).pc j = if j = i then p else r.pc j :=
        fun j => setPc_pc _ i j p
      refine ⟨⟨h.queue, fun j => ?_⟩,
        ⟨hshape, hcount, hdel, fun t ht => hframe t (ht i), fun j t ht => ?_, ⟨h', rfl⟩, rfl, rfl⟩⟩
      · refine hshape.resting (p := ((r.setHeap h').setPc i p).pc j) ?_
        rw [hpc]
        split
        · exact ⟨halike.hand.trans hrest.hand,
            fun t k hat => hrest.noEdge t k ((halike.walks t k).mp hat), halike.outside', hin⟩
        · exact h.resting j
      · rw [hpc] at ht
        by_cases hj : j = i
        · rw [if_pos hj] at ht
          rw [hj]
          exact (halike.object t ht).resolve_right (by rw [hrest.hand]; simp)
        · rwa [if_neg hj] at ht
  | @pop j _ _ _ hq => simp [h.queue j] at hq
  | skip hi _ => rw [hi] at hrest; exact absurd hrest.hand (by simp [Pc.hand])
  | start hi _ => rw [hi] at hrest; exact absurd hrest.hand (by simp [Pc.hand])
  | @finish t hi => exact absurd (Or.inl hi) (hrest.outside t)
  | @restore t hi => exact absurd (Or.inr hi) (hrest.outside t)
  | @walk t succ k p hstage hnext =>
      exact absurd ⟨hstage, (List.getElem?_eq_some_iff.mp hnext).1⟩ (hrest.noEdge t k)
  | push hi => rw [hi] at hrest; exact absurd hrest.hand (by simp [Pc.hand])

end Runtime

/-- When all tasks are through, none is on its way. -/
theorem Flow.idle_of_through {nodes : Finset TaskId} {extra : TaskId → Int} {roots : List TaskId}
    {r : Runtime m} (h : Flow nodes extra roots r)
    (hall : ∀ t ∈ nodes, r.walked t = (r.outs t).length ∧ r.finishes t = 1 ∧ r.starts t = 1) :
    r.Idle := by
  have hplace : ∀ t, roots.count t + r.queued t + r.inHand t = 0 := by
    intro t
    have hp := h.place t
    split at hp
    · rename_i hand
      have := (hall t hand.1).2.2
      omega
    · omega
  have hnoEdge : ∀ i t k, ¬ (r.pc i).At r.heap t k := by
    intro i t k hat
    obtain ⟨hmem, hw⟩ := h.walking i t k hat
    have hend := (hall t hmem).1
    have hlt : k < (r.outs t).length := hat.2
    omega
  refine ⟨fun i => ?_, fun i => ⟨?_, hnoEdge i, ?_, h.inside i⟩⟩
  · rw [List.eq_nil_iff_forall_not_mem]
    intro t ht
    have hpos : 0 < r.queued t :=
      Finset.sum_pos' (fun _ _ => Nat.zero_le _)
        ⟨i, Finset.mem_univ i, List.count_pos_iff.mpr ht⟩
    have := hplace t
    omega
  · by_contra hne
    obtain ⟨t, ht⟩ := Option.ne_none_iff_exists'.mp hne
    have hpos : 0 < r.inHand t := tally_pos (i := i) (by simp [ht])
    have := hplace t
    omega
  · exact fun t ht => hnoEdge i t 0 (h.at_of_beforeRestore ht)

namespace Round

variable {nodes : Finset TaskId} {e : TaskId} {roots : List TaskId} {r : Runtime m}

/-- When no edge into the end task is left, no edge at all is left. -/
theorem complete (h : Round nodes e roots r) (hend : r.pending nodes e = 0) {t : TaskId}
    (ht : t ∈ nodes) : r.walked t = (r.outs t).length ∧ r.finishes t = 1 ∧ r.starts t = 1 :=
  h.flow.through ht <| h.runnable.dag.complete_of_pending_sink
    (fun _ _ hu => h.flow.walked_of_pending hu) hend ht

theorem idle_of_complete (h : Round nodes e roots r) (hend : r.pending nodes e = 0) :
    r.Idle :=
  h.flow.idle_of_through fun _ ht => h.complete hend ht

/-- All tasks before a released task have finished. -/
theorem finished_of_reach (h : Round nodes e roots r) {u t : TaskId}
    (hreach : Relation.TransGen (Release.Edge nodes r.outs) u t)
    (ht : r.pending nodes t = 0) : .finish u ∈ r.log :=
  h.flow.finished_of_reach hreach ht

/-- While edges into the end task are left, some task is released and not through. -/
theorem exists_work (h : Round nodes e roots r) (hend : r.pending nodes e ≠ 0) :
    roots ≠ [] ∨ (∃ i, r.queue i ≠ []) ∨ ∃ i t, (r.pc i).hand = some t ∨ (r.pc i).Active r.heap t := by
  have hsome : ∃ u ∈ nodes, e ∈ (r.outs u).drop (r.walked u) := by
    by_contra hno
    push Not at hno
    exact hend (Release.pending_eq_zero_iff.mpr hno)
  obtain ⟨u, hu, hmem⟩ := hsome
  have hleft : r.walked u < (r.outs u).length := by
    by_contra hge
    rw [List.drop_eq_nil_of_le (by omega)] at hmem
    simp at hmem
  obtain ⟨v, hv, hvleft, hvready⟩ := h.runnable.dag.exists_ready hu hleft
  rcases h.flow.somewhere hv hvready hvleft with hroot | ⟨i, hi⟩ | ⟨i, hi⟩
  · exact Or.inl (List.ne_nil_of_mem hroot)
  · exact Or.inr (Or.inl ⟨i, List.ne_nil_of_mem hi⟩)
  · exact Or.inr (Or.inr ⟨i, v, hi⟩)

/-- The position of the main thread outside of `main_kernel_func` does not matter. -/
theorem setPc_next (h : Round nodes e roots r) {i : Fin (m + 1)}
    (hi : (r.pc i).Resting r.heap) : Round nodes e roots ((r.setHeap r.heap).setPc i .next) :=
  h.quiet (Heap.SameShape.refl _) (fun _ => rfl) ⟨by simp [Pc.object], hi.hand.symm,
    fun t k => iff_of_false (Pc.not_at_of_stage rfl t k) (hi.noEdge t k), hi.outside,
    by simp [Pc.BeforeRestore]⟩ trivial

end Round

/-! ## The main thread -/

/-- The end task of the round that the main thread is in. -/
def MainPc.waitsFor : MainPc → Option TaskId
  | .prog => none
  | .spawn e _ => some e
  | .test e => some e
  | .run e => some e
  | .left e => some e
  | .returned e => some e

/-- The roots that `spawn` has still to push. -/
def MainPc.roots : MainPc → List TaskId
  | .spawn _ roots => roots
  | _ => []

/-- The main thread is in a round. -/
structure InRound (nodes : Finset TaskId) (e : TaskId) (r : Runtime m) : Prop where
  round : Round nodes e r.main.roots r
  waits : r.main.waitsFor = some e
  resting : ∀ roots, r.main = .spawn e roots → (r.pc 0).Resting r.heap
  ended : r.main = .left e ∨ r.main = .returned e → r.pending nodes e = 0

namespace InRound

variable {nodes : Finset TaskId} {e : TaskId} {r r' : Runtime m}

/-- The invariant looks at the main thread only through the roots left. -/
theorem withMain {roots : List TaskId} (h : Round nodes e roots r) (mpc : MainPc) :
    Round nodes e roots { r with main := mpc } :=
  h.same (Heap.SameShape.refl _) (fun _ => rfl) rfl (fun _ => rfl)
    (fun _ _ _ => Iff.rfl) (fun _ _ => Iff.rfl) (fun _ _ => Iff.rfl) h.inside

theorem pending_over (h : InRound nodes e r) :
    (r.heap e).refCount ≤ 1 ↔ r.pending nodes e = 0 := by
  have := h.round.endCount
  omega

theorem idle (h : InRound nodes e r) (hover : r.main = .left e ∨ r.main = .returned e) :
    r.Idle :=
  h.round.idle_of_complete (h.ended hover)

/-- A step of a thread in its loop. -/
theorem turn (h : InRound nodes e r) {i : Fin (m + 1)} (ht : Turn r i r')
    (hi : i ≠ 0 ∨ ∀ roots, r.main ≠ .spawn e roots) : InRound nodes e r' := by
  have hmain := ht.main
  have hround := h.round.turn ht
  refine ⟨by rw [hmain]; exact hround, by rw [hmain]; exact h.waits, ?_, ?_⟩
  · intro roots hspawn
    rw [hmain] at hspawn
    have hne : i ≠ 0 := hi.resolve_right fun hno => hno roots hspawn
    have hrest := h.resting roots hspawn
    -- the step is another thread's
    rw [ht.others (Ne.symm hne)]
    exact ht.shape.resting hrest
  · intro hover
    rw [hmain] at hover
    obtain ⟨-, hsame⟩ := (h.idle hover).turn ht
    have hend := hround.endCount
    have hold := h.round.endCount
    rw [hsame.refCount] at hend
    have := h.ended hover
    omega

/-- The main thread goes on inside the round. -/
theorem goesOn {roots : List TaskId} {mpc : MainPc} (h : Round nodes e roots r)
    (hroots : mpc.roots = roots) (hwaits : mpc.waitsFor = some e)
    (hspawn : ∀ roots, mpc = .spawn e roots → (r.pc 0).Resting r.heap)
    (hover : mpc = .left e ∨ mpc = .returned e → r.pending nodes e = 0) :
    InRound nodes e { r with main := mpc } :=
  ⟨by rw [hroots]; exact withMain h mpc, hwaits, hspawn, hover⟩

/-- Every step of a round, up to the return to the program. -/
theorem move (h : InRound nodes e r) {i : Fin (m + 1)} (hback : i = 0 → r.main ≠ .returned e)
    (hmove : Move r i r') : InRound nodes e r' := by
  have hwaits := h.waits
  have hround := h.round
  cases hmove with
  | worker hi turn => exact h.turn turn (Or.inl hi)
  | @root e' t roots hm j =>
      rw [hm] at hwaits hround
      cases hwaits
      exact goesOn (hround.spawnRoot j) rfl rfl (fun _ _ => h.resting _ hm) (by simp)
  | @enter e' hm =>
      rw [hm] at hwaits hround
      cases hwaits
      exact goesOn (hround.setPc_next (h.resting [] hm)) rfl rfl (by simp) (by simp)
  | @test e' hm =>
      rw [hm] at hwaits hround
      cases hwaits
      by_cases hlt : 1 < (r.heap e).refCount
      · rw [if_pos hlt]
        exact goesOn hround rfl rfl (by simp) (by simp)
      · rw [if_neg hlt]
        exact goesOn hround rfl rfl (by simp) fun _ => h.pending_over.mp (by omega)
  | run hm turn =>
      exact h.turn turn (Or.inr (by simp [hm]))
  | @turnEnd e' r₁ hm turn =>
      rw [hm] at hwaits
      cases hwaits
      have hround₁ := (h.turn turn (Or.inr (by simp [hm]))).round
      rw [turn.main, hm] at hround₁
      exact goesOn hround₁ rfl rfl (by simp) (by simp)
  | @leave e' hm =>
      rw [hm] at hwaits hround
      cases hwaits
      have hdel : Round nodes e (MainPc.left e).roots
          (r.setHeap (if (r.heap e).reused then r.heap else r.heap.delete e)) :=
        hround.same (r.heap.sameShape_delete e) (r.heap.refCount_delete e) rfl (fun _ => rfl)
          (fun _ _ _ => Iff.rfl) (fun _ _ => Iff.rfl) (fun _ _ => Iff.rfl)
          (fun i => ((r.heap.sameShape_delete e).inside _).mpr (hround.inside i))
      refine goesOn hdel rfl rfl (by simp) fun _ => ?_
      have hover := h.ended (Or.inl hm)
      have hend := hdel.endCount
      have hold := hround.endCount
      change ((if (r.heap e).reused then r.heap else r.heap.delete e) e).refCount = _ at hend
      rw [Heap.refCount_delete] at hend
      omega
  | @back e' hm =>
      rw [hm] at hwaits hback
      cases hwaits
      exact absurd rfl (hback rfl)

theorem step (h : InRound nodes e r) {i : Fin (m + 1)} {hit : Bool}
    (hmain : i = 0 → r.main ≠ .returned e) (hstep : r.step i hit = some r') :
    InRound nodes e r' :=
  h.move hmain (step_move h.round.inside hstep)

end InRound

/-! ## The beginning of a round -/

/-- The edges into a task. -/
def inDegree (nodes : Finset TaskId) (h : Heap) (t : TaskId) : Nat :=
  ∑ u ∈ nodes, (h u).outs.count t

/-- Nothing is on its way yet: the counters are in-degrees, and the roots are the tasks
without predecessors. -/
theorem Flow.start_run {nodes : Finset TaskId} {roots : List TaskId} {r : Runtime m}
    (hfull : ∀ t ∈ nodes, r.outs t ≠ []) (hkind : ∀ t ∈ nodes, (r.heap t).isAceMesh = true)
    (hcounts : ∀ t ∈ nodes, (r.heap t).refCount = inDegree nodes r.heap t)
    (hnodup : roots.Nodup) (hroots : ∀ t, t ∈ roots ↔ t ∈ nodes ∧ inDegree nodes r.heap t = 0)
    (hidle : r.Idle) (hlog : r.log = []) :
    Flow nodes (fun t => (r.heap t).refCount - inDegree nodes r.heap t) roots r := by
  have hstarts : ∀ t, r.starts t = 0 := fun t => by simp [starts, hlog]
  have hwalked : ∀ t, r.walked t = 0 := fun t => by simp [walked, hlog]
  have hpending : ∀ t, r.pending nodes t = inDegree nodes r.heap t := by
    intro t
    refine (Release.pending_congr (fun _ _ => rfl) (fun u _ => hwalked u) t).trans ?_
    exact Release.pending_zero nodes r.outs t
  have hqueued : ∀ t, r.queued t = 0 := fun t =>
    Finset.sum_eq_zero fun i _ => by
      rw [hidle.queue i]
      rfl
  have hinHand : ∀ t, r.inHand t = 0 := fun t => tally_eq_zero fun i => by
    simp [(hidle.resting i).hand]
  constructor
  case full => exact hfull
  case kind => exact hkind
  case inside => exact fun i => (hidle.resting i).inside
  case place =>
    intro t
    rw [hqueued, hinHand, hpending, hstarts]
    split
    · rename_i hroot
      have := List.count_eq_one_of_mem hnodup ((hroots t).mpr hroot)
      omega
    · rename_i hroot
      have := List.count_eq_zero.mpr fun hmem => hroot ((hroots t).mp hmem)
      omega
  case walking => exact fun i t k hat => absurd hat ((hidle.resting i).noEdge t k)
  case running => exact fun i t hb => absurd hb ((hidle.resting i).outside t)
  case started =>
    intro t ht
    have hwalkers : r.walkers t = 0 := by
      refine tally_eq_zero fun i => if_neg ?_
      rintro ⟨k, hk⟩
      exact (hidle.resting i).noEdge t k hk
    have hpos : 0 < (r.outs t).length := List.length_pos_iff.mpr (hfull t ht)
    rw [hstarts, hwalkers, hwalked, if_neg (by omega)]
  case unstarted => exact fun t _ => hwalked t
  case finished =>
    intro t
    have hbodies : r.bodies t = 0 :=
      tally_eq_zero fun i => if_neg fun hb => (hidle.resting i).outside t (Or.inl hb)
    rw [hbodies, hstarts]
    simp [finishes, hlog]
  case count =>
    intro t ht _
    rw [hpending, hcounts t ht]
  case outside =>
    intro t _
    rw [hpending]
    omega
  case restored => exact fun t _ _ hs => absurd (hstarts t) hs
  case order =>
    intro l₁ t l₂ heq
    simp [hlog] at heq

/-- `increment_ref_count` on an object outside of the graph. -/
theorem Flow.increment {nodes : Finset TaskId} {extra : TaskId → Int} {roots : List TaskId}
    {r : Runtime m} (h : Flow nodes extra roots r) {e : TaskId} (he : e ∉ nodes) :
    Flow nodes (Function.update extra e (extra e + 1)) roots
      (r.setHeap (r.heap.incrementRefCount e)) := by
  have hshape := r.heap.sameShape_increment e
  have hcount := r.heap.refCount_increment e
  have hpending : ∀ t, (r.setHeap (r.heap.incrementRefCount e)).pending nodes t =
      r.pending nodes t := fun t => Release.pending_congr (fun u _ => hshape.outs u)
    (fun _ _ => rfl) t
  have hwalkers : ∀ t, (r.setHeap (r.heap.incrementRefCount e)).walkers t = r.walkers t :=
    fun t => tally_congr fun i => by
      have hactive := hshape.active_iff t (r.pc i)
      change (if (r.pc i).Active (r.heap.incrementRefCount e) t then 1 else 0) = _
      simp [hactive]
  have houts : (r.setHeap (r.heap.incrementRefCount e)).outs = r.outs := hshape.outs_fun
  constructor
  case full =>
    rw [houts]
    exact h.full
  case kind => exact fun t ht => (hshape.isAceMesh t).trans (h.kind t ht)
  case inside => exact fun i => (hshape.inside _).mpr (h.inside i)
  case place =>
    intro t
    rw [hpending]
    exact h.place t
  case walking => exact fun i t k hi => h.walking i t k ((hshape.at_iff t k _).mp hi)
  case running => exact h.running
  case started =>
    intro t ht
    rw [hwalkers, houts]
    exact h.started t ht
  case unstarted => exact h.unstarted
  case finished => exact h.finished
  case count =>
    intro t ht hs
    have hne : t ≠ e := fun heq => he (heq ▸ ht)
    change (r.heap.incrementRefCount e t).refCount = _
    rw [hpending, hcount, if_neg hne, h.count t ht hs]
    simp
  case outside =>
    intro t ht
    change (r.heap.incrementRefCount e t).refCount = _
    rw [hpending, hcount, h.outside t ht]
    by_cases hte : t = e
    · rw [if_pos hte, hte, Function.update_self]
      omega
    · rw [if_neg hte, Function.update_of_ne hte]
      omega
  case restored =>
    intro t ht hr hs hno
    have hne : t ≠ e := fun heq => he (heq ▸ ht)
    change (r.heap.incrementRefCount e t).refCount = (r.heap.incrementRefCount e t).backupRef
    rw [hcount, if_neg hne, hshape.backupRef, Int.add_zero]
    exact h.restored t ht ((hshape.reused t).symm.trans hr) hs hno
  case order =>
    rw [houts]
    exact h.order

/-- The program is about to call `spawn` for a graph whose counters are in-degrees and whose
roots are its tasks without predecessors. -/
structure Ready (nodes : Finset TaskId) (e : TaskId) (r : Runtime m) : Prop where
  runnable : Runnable (m + 1) nodes e r.heap
  endTask : r.graph.endTask = some e
  counts : ∀ t ∈ nodes, (r.heap t).refCount = inDegree nodes r.heap t
  endCount : (r.heap e).refCount = inDegree nodes r.heap e
  roots_nodup : r.graph.needSpawnTasks.Nodup
  roots : ∀ t, t ∈ r.graph.needSpawnTasks ↔ t ∈ nodes ∧ inDegree nodes r.heap t = 0
  idle : r.Idle
  main : r.main = .prog

namespace Ready

variable {nodes : Finset TaskId} {e : TaskId} {r r₁ : Runtime m}

theorem spawn_eq (h : Ready nodes e r) (hspawn : r.spawn = some r₁) :
    r₁ = { r.setHeap (r.heap.incrementRefCount e) with
      main := .spawn e r.graph.needSpawnTasks
      log := [] } := by
  obtain ⟨e', hend, -, hr₁⟩ := Runtime.spawn_eq_some_iff.mp hspawn
  rw [h.endTask] at hend
  cases hend
  exact hr₁

/-- What `spawn` leaves alone. -/
theorem spawn_same (h : Ready nodes e r) (hspawn : r.spawn = some r₁) :
    r.heap.SameShape r₁.heap ∧ r₁.pc = r.pc ∧ r₁.queue = r.queue ∧ r₁.log = [] := by
  obtain rfl := h.spawn_eq hspawn
  exact ⟨r.heap.sameShape_increment e, rfl, rfl, rfl⟩

theorem inRound (h : Ready nodes e r) (hspawn : r.spawn = some r₁) : InRound nodes e r₁ := by
  obtain rfl := h.spawn_eq hspawn
  have hshape := r.heap.sameShape_increment e
  have hidle : ({ r with log := [] } : Runtime m).Idle := ⟨h.idle.queue, h.idle.resting⟩
  have hstart : Flow nodes (fun t => (r.heap t).refCount - inDegree nodes r.heap t)
      r.graph.needSpawnTasks { r with log := [] } :=
    @Flow.start_run m nodes _ { r with log := [] } (fun t ht => h.runnable.dag.outs_ne_nil ht)
      h.runnable.kind h.counts h.roots_nodup h.roots hidle rfl
  have hround := Round.of_flow (hstart.increment h.runnable.dag.sink_notMem)
    (h.runnable.sameShape hshape) (by rw [Function.update_self, h.endCount]; omega)
  exact InRound.goesOn hround rfl rfl (fun _ _ => hshape.resting (h.idle.resting 0)) (by simp)

end Ready

/-! ## Any interleaving -/

theorem InRound.step_shape {nodes : Finset TaskId} {e : TaskId} {r r' : Runtime m}
    (h : InRound nodes e r) {i : Fin (m + 1)} {hit : Bool} (hstep : r.step i hit = some r') :
    r.heap.SameShape r'.heap :=
  (step_move h.round.inside hstep).shape

/-- A state after the round, before the program does anything. -/
structure AfterRound (r : Runtime m) : Prop where
  idle : r.Idle
  main : r.main = .prog

theorem AfterRound.move {r r' : Runtime m} (h : AfterRound r) {i : Fin (m + 1)}
    (hmove : Move r i r') : AfterRound r' ∧ r.SameWork r' := by
  have hmain := h.main
  cases hmove with
  | worker _ turn =>
      obtain ⟨hidle, hsame⟩ := h.idle.turn turn
      exact ⟨⟨hidle, hsame.main.trans hmain⟩, hsame⟩
  | root hm _ => rw [hm] at hmain; cases hmain
  | enter hm => rw [hm] at hmain; cases hmain
  | test hm => rw [hm] at hmain; cases hmain
  | run hm _ => rw [hm] at hmain; cases hmain
  | turnEnd hm _ => rw [hm] at hmain; cases hmain
  | leave hm => rw [hm] at hmain; cases hmain
  | back hm => rw [hm] at hmain; cases hmain

theorem AfterRound.step {r r' : Runtime m} (h : AfterRound r) {i : Fin (m + 1)} {hit : Bool}
    (hstep : r.step i hit = some r') : AfterRound r' :=
  (h.move (step_move (fun i => (h.idle.resting i).inside) hstep)).1

/-- The return of `spawn_and_wait`. -/
theorem InRound.return {nodes : Finset TaskId} {e : TaskId} {r r' : Runtime m}
    (h : InRound nodes e r) (hmain : r.main = .returned e) {hit : Bool}
    (hstep : r.step 0 hit = some r') : AfterRound r' := by
  have hidle := h.idle (Or.inr hmain)
  simp only [Runtime.step, if_true, Runtime.mainStep, hmain, Option.some.injEq] at hstep
  subst hstep
  exact ⟨⟨hidle.queue, fun i => (r.heap.sameShape_restore e).resting (hidle.resting i)⟩, rfl⟩

theorem InRound.steps {nodes : Finset TaskId} {e : TaskId} {r₁ r : Runtime m}
    (h : InRound nodes e r₁) (hsteps : r₁.Steps r) :
    (InRound nodes e r ∧ r₁.heap.SameShape r.heap) ∨ AfterRound r := by
  induction hsteps with
  | refl => exact Or.inl ⟨h, Heap.SameShape.refl _⟩
  | tail _ hlast ih =>
      obtain ⟨i, hit, hstep⟩ := hlast
      rcases ih with ⟨hin, hshape⟩ | hafter
      · rename_i r₂ r₃ _
        by_cases hret : i = 0 ∧ r₂.main = .returned e
        · obtain ⟨rfl, hret⟩ := hret
          exact Or.inr (hin.return hret hstep)
        · have hmain : i = 0 → r₂.main ≠ .returned e := fun hi hr => hret ⟨hi, hr⟩
          exact Or.inl ⟨hin.step hmain hstep, hshape.trans (hin.step_shape hstep)⟩
      · exact Or.inr (hafter.step hstep)

/-! ## What a round leaves alone -/

namespace Runtime

variable {nodes : Finset TaskId} {e : TaskId} {roots : List TaskId} {r r' : Runtime m}
  {i : Fin (m + 1)}

theorem Move.graph (h : Move r i r') (hback : i = 0 → ∀ e, r.main ≠ .returned e) :
    r'.graph = { r.graph with heap := r'.heap } := by
  cases h with
  | worker _ turn => exact turn.graph
  | root _ _ => rfl
  | enter _ => rfl
  | test _ => rfl
  | run _ turn => exact turn.graph
  | turnEnd _ turn => exact turn.graph
  | leave _ => rfl
  | back hm => exact absurd hm (hback rfl _)

/-- The main thread stays in its round until it returns. -/
theorem Move.waitsFor (h : Move r i r') :
    r'.main.waitsFor = r.main.waitsFor ∨ r'.main.waitsFor = none := by
  cases h with
  | worker _ turn => exact Or.inl (congrArg MainPc.waitsFor turn.main)
  | root hm _ => exact Or.inl (by rw [hm]; rfl)
  | enter hm => exact Or.inl (by rw [hm]; rfl)
  | test hm =>
      refine Or.inl ?_
      rw [hm]
      change MainPc.waitsFor (if _ then _ else _) = _
      split <;> rfl
  | run _ turn => exact Or.inl (congrArg MainPc.waitsFor turn.main)
  | turnEnd hm _ => exact Or.inl (by rw [hm]; rfl)
  | leave hm => exact Or.inl (by rw [hm]; rfl)
  | back _ => exact Or.inr rfl

/-- A step stores no graph and makes no object. -/
theorem Move.reuse_and_fresh (h : Move r i r') :
    r'.graph.reuse = r.graph.reuse ∧ r'.graph.fresh = r.graph.fresh := by
  have hkept {r' : Runtime m} (hgraph : r'.graph = { r.graph with heap := r'.heap }) :
      r'.graph.reuse = r.graph.reuse ∧ r'.graph.fresh = r.graph.fresh := by
    rw [hgraph]
    exact ⟨rfl, rfl⟩
  cases h with
  | worker _ turn => exact hkept turn.graph
  | root _ _ => exact ⟨rfl, rfl⟩
  | enter _ => exact ⟨rfl, rfl⟩
  | test _ => exact ⟨rfl, rfl⟩
  | run _ turn => exact hkept turn.graph
  | turnEnd _ turn => exact hkept turn.graph
  | leave _ => exact ⟨rfl, rfl⟩
  | back _ => exact ⟨rfl, rfl⟩

theorem Move.reuse (h : Move r i r') : r'.graph.reuse = r.graph.reuse := h.reuse_and_fresh.1

theorem Move.fresh (h : Move r i r') : r'.graph.fresh = r.graph.fresh := h.reuse_and_fresh.2

/-- Only objects that are not reused are deleted. -/
theorem Move.deleted (h : Move r i r') {t : TaskId} (ht : (r.heap t).reused = true) :
    (r'.heap t).deleted = (r.heap t).deleted := by
  cases h with
  | worker _ turn => exact turn.deleted ht
  | root _ _ => rfl
  | enter _ => rfl
  | test _ => rfl
  | run _ turn => exact turn.deleted ht
  | turnEnd _ turn => exact turn.deleted ht
  | @leave e hm =>
      show ((if (r.heap e).reused then r.heap else r.heap.delete e) t).deleted = _
      by_cases hr : (r.heap e).reused = true
      · rw [if_pos hr]
      · rw [if_neg hr, Heap.delete, Heap.modify_of_ne]
        intro he
        exact hr (he ▸ ht)
  | @back e hm => exact r.heap.deleted_restore e t

/-- A thread gets to work at an object from a queue or from its hand. -/
theorem Turn.object (h : Turn r i r') {j : Fin (m + 1)} {t : TaskId}
    (ht : (r'.pc j).object = some t) :
    (r.pc j).object = some t ∨ (∃ l, t ∈ r.queue l) ∨ (r.pc j).hand = some t := by
  by_cases hj : j = i
  · subst hj
    have hset : ∀ (r₁ : Runtime m) p, (r₁.setPc j p).pc j = p := fun r₁ p =>
      Function.update_self ..
    cases h with
    | quiet _ _ _ _ halike _ =>
        rw [hset] at ht
        exact (halike.object t ht).imp id Or.inr
    | @pop l u rest hpc hq =>
        have hobject : ((r.setPc j (.hold u)).pc j).object = some t := ht
        rw [hset] at hobject
        cases hobject
        exact Or.inr (Or.inl ⟨l, hq ▸ List.mem_cons_self⟩)
    | skip hpc _ => rw [hset] at ht; rw [hpc]; exact Or.inl ht
    | start hpc _ =>
        rw [show ((r.setPc j _).record _).pc j = _ from hset r _] at ht
        rw [hpc]
        exact Or.inl ht
    | finish hpc =>
        rw [show ((r.setPc j _).record _).pc j = _ from hset r _] at ht
        rw [hpc]
        exact Or.inl ht
    | restore hpc => rw [hset] at ht; rw [hpc]; exact Or.inl ht
    | @walk u succ k p hstage _ _ _ _ _ _ _ hobject =>
        rw [hset, hobject] at ht
        cases ht
        refine Or.inl ?_
        cases hp : r.pc j <;> rw [hp] at hstage <;> simp_all [Pc.stage, Pc.object]
    | push hpc => rw [hset] at ht; rw [hpc]; exact Or.inl ht
  · rw [h.others hj] at ht
    exact Or.inl ht

theorem Move.object (h : Move r i r') {j : Fin (m + 1)} {t : TaskId}
    (ht : (r'.pc j).object = some t) :
    (r.pc j).object = some t ∨ (∃ l, t ∈ r.queue l) ∨ (r.pc j).hand = some t := by
  cases h with
  | worker _ turn => exact turn.object ht
  | root _ _ => exact Or.inl ht
  | enter _ =>
      have hobject : ((r.setPc 0 .next).pc j).object = some t := ht
      rw [setPc_pc] at hobject
      by_cases hj : j = 0
      · rw [if_pos hj] at hobject
        cases hobject
      · rw [if_neg hj] at hobject
        exact Or.inl hobject
  | test _ => exact Or.inl ht
  | run _ turn => exact turn.object ht
  | turnEnd _ turn => exact turn.object ht
  | leave _ => exact Or.inl ht
  | back _ => exact Or.inl ht

end Runtime

namespace Round

variable {nodes : Finset TaskId} {e : TaskId} {roots : List TaskId} {r r' : Runtime m}
  {i : Fin (m + 1)}

theorem mem_of_queue (h : Round nodes e roots r) {t : TaskId} (ht : t ∈ r.queue i) :
    t ∈ nodes := by
  have hpos : 0 < r.queued t :=
    Finset.sum_pos' (fun _ _ => Nat.zero_le _) ⟨i, Finset.mem_univ i, List.count_pos_iff.mpr ht⟩
  have hplace := h.place t
  split at hplace
  · rename_i hmem
    exact hmem.1
  · omega

/-- Counters of other graphs do not change. -/
theorem turn_refCount (h : Round nodes e roots r) (ht : Turn r i r') {u : TaskId}
    (hu : u ∉ nodes) (hue : u ≠ e) : (r'.heap u).refCount = (r.heap u).refCount := by
  cases ht with
  | quiet _ hcount => exact hcount u
  | pop _ _ => rfl
  | skip _ _ => rfl
  | start _ _ => rfl
  | finish _ => rfl
  | @restore t hi =>
      have hne : u ≠ t := fun he => hu (he ▸ h.running i t (Or.inr hi))
      show ((if (r.heap t).reused then r.heap.restoreRefCount t else r.heap) u).refCount = _
      rw [Heap.refCount_restore, if_neg (fun hand => hne hand.1)]
  | @walk t succ k p hstage hnext =>
      have hlt := (List.getElem?_eq_some_iff.mp hnext).1
      have hmem := (h.walking i t k ⟨hstage, hlt⟩).1
      have hsucc := h.runnable.dag.outs_mem t hmem succ (List.mem_of_getElem? hnext)
      have hne : u ≠ succ := by
        intro he
        obtain hs | hs := hsucc
        · exact hu (he ▸ hs)
        · exact hue (he.trans hs)
      show (r.heap.decrementRefCount succ u).refCount = _
      rw [Heap.refCount_decrement, if_neg hne, Int.sub_zero]
  | push _ => rfl

end Round

namespace InRound

variable {nodes : Finset TaskId} {e : TaskId} {r r' : Runtime m} {i : Fin (m + 1)}

theorem move_refCount (h : InRound nodes e r) (hmove : Move r i r') {u : TaskId}
    (hu : u ∉ nodes) (hue : u ≠ e) : (r'.heap u).refCount = (r.heap u).refCount := by
  cases hmove with
  | worker _ turn => exact h.round.turn_refCount turn hu hue
  | root _ _ => rfl
  | enter _ => rfl
  | test _ => rfl
  | run _ turn => exact h.round.turn_refCount turn hu hue
  | turnEnd _ turn => exact h.round.turn_refCount turn hu hue
  | leave _ => exact r.heap.refCount_delete _ u
  | @back e' hm =>
      have hwaits := h.waits
      rw [hm] at hwaits
      cases hwaits
      show ((if (r.heap e).reused then r.heap.restoreRefCount e else r.heap) u).refCount = _
      rw [Heap.refCount_restore, if_neg (fun hand => hue hand.1)]

theorem move_object (h : InRound nodes e r) (hmove : Move r i r') {j : Fin (m + 1)}
    {t : TaskId} (ht : (r'.pc j).object = some t) : (r.pc j).object = some t ∨ t ∈ nodes := by
  obtain hobject | ⟨l, hqueue⟩ | hhand := hmove.object ht
  · exact Or.inl hobject
  · exact Or.inr (h.round.mem_of_queue hqueue)
  · exact Or.inr (h.round.mem_of_hand hhand).1

/-- After the round the counters of reused tasks are the stored ones. -/
theorem restored (h : InRound nodes e r) (hover : r.main = .left e ∨ r.main = .returned e)
    {t : TaskId} (ht : t ∈ nodes) (hreused : (r.heap t).reused = true) :
    (r.heap t).refCount = (r.heap t).backupRef := by
  have hstarts := (h.round.complete (h.ended hover) ht).2.2
  exact h.round.restored t ht hreused (by omega)
    fun i => ((h.idle hover).resting i).outside t

end InRound

end AceMesh
