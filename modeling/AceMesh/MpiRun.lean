import AceMesh.MpiPlaces

/-!
# One graph in any of the builds

`Tracks` ties the runtime to the abstract run of `Suspend`: the places show the stages, the log
is the same, and the counter of a waiting task is the number of edges into it that are left.
Every step of every thread is one step of that run or none (`Tracks.move`).
-/

namespace AceMesh

def MainPc.executing : MainPc → Bool
  | .test _ | .run _ => true
  | _ => false

/-- The main thread has left the loop. -/
def MainPc.past : MainPc → Bool
  | .left _ | .returned _ | .prog => true
  | _ => false

/-- The main thread has dealt with the end task. -/
def MainPc.dropped : MainPc → Bool
  | .returned _ | .prog => true
  | _ => false

namespace MpiStrategy

open Suspend (Act Stage)

variable {m : Nat}

/-- What an execution asks of the graph. -/
structure Runs (nodes : Finset TaskId) (e : TaskId) (h : Heap) : Prop where
  dag : Release.Dag nodes (fun t => (h t).outs) e
  kind : ∀ t ∈ nodes, (h t).isAceMesh = true

/-- An object that no thread deletes as one of the graph: it belongs to another one, or is
stored for reuse. -/
def Foreign (nodes : Finset TaskId) (e : TaskId) (h : Heap) (t : TaskId) : Prop :=
  (t ∉ nodes ∧ t ≠ e) ∨ (h t).reused = true

/-- The execution of the graph `nodes` with end task `e`, which began with the heap `h₀`. -/
structure Tracks (b : Strategy) (nodes : Finset TaskId) (e : TaskId) (h₀ : Heap)
    (blocking : TaskId → Bool) (old : Thread m → Bool) (s : Kernels m)
    (a : Suspend.State TaskId (Thread m)) : Prop where
  shape : h₀.SameShape s.heap
  types : s.blocking = blocking
  inv : Suspend.Inv nodes (fun t => (h₀ t).outs) a
  log : s.log = a.log
  placed : Placed b old s a.stage
  leftover : ∀ i, old i = true → ∃ t, Foreign nodes e h₀ t ∧ (s.pc i).Leftover s.heap t
  count : ∀ t ∈ nodes, a.stage t = .waiting →
    (s.heap t).refCount = a.pending nodes (fun t => (h₀ t).outs) t
  endCount : s.main ≠ .prog →
    (s.heap e).refCount = a.pending nodes (fun t => (h₀ t).outs) e + 1
  waits : s.main = .prog ∨ s.main.waitsFor = some e
  resting : s.main.executing = false → s.pc .main = .next
  between : s.main = .test e → s.pc .main = .next ∨ ∃ t, s.pc .main = .hold t
  ended : s.main.past = true → a.pending nodes (fun t => (h₀ t).outs) e = 0
  gone : ∀ t i deleted, a.stage t = .gone i deleted →
    deleted = Kernels.deletes b i (h₀ t).reused (blocking t) false
  present : ∀ t, (a.stage t).thread = some .mpi → b = .extraThread
  suspends : ∀ t, .finish true ∈ Suspend.history s.log t → blocking t = true
  endTask : Suspend.history s.log e =
    if s.main.dropped && !(h₀ e).reused then [.delete] else []

namespace Kernels

theorem deletes_clear {b : Strategy} {s : Kernels m} {t : TaskId}
    (h : s.isSuspended b t = false) (i : Thread m) (reused : Bool) :
    deletes b i reused (s.blocking t) (s.suspend t) =
      deletes b i reused (s.blocking t) false := by
  cases b with
  | notMpi => rfl
  | extraThread =>
      cases i with
      | worker j => rfl
      | mpi =>
          have hflag : (s.blocking t && s.suspend t) = false := by simpa [isSuspended] using h
          unfold deletes
          cases hblocking : s.blocking t with
          | false => simp
          | true =>
              rw [hblocking, Bool.true_and] at hflag
              rw [hflag]
  | blockingQueue =>
      cases i with
      | mpi => rfl
      | worker j =>
          have hflag : (s.blocking t && s.suspend t) = false := by simpa [isSuspended] using h
          unfold deletes
          rw [hflag, Bool.and_false]

/-- What a label says about the task at hand, apart from its stage. -/
theorem Turn.label {b : Strategy} {s s' : Kernels m} {i : Thread m} {l : Label m}
    (h : Turn b s i s' (some l)) :
    (l.act = some (.finish true) → s.blocking l.task = true) ∧
    (∀ j deleted, l.stage = .gone j deleted → deleted =
      deletes b j (s.heap l.task).reused (s.blocking l.task) false) := by
  generalize hlabel : some l = label at h
  cases h with
  | @finish t mode pc =>
      cases hlabel
      refine ⟨fun hact => ?_, nofun⟩
      have hsuspended : (s.setSuspend t mode).isSuspended b t = true := by simpa using hact
      exact (isSuspended_iff.mp hsuspended).2.1
  | @retire t v pc =>
      by_cases hsuspended : s.isSuspended b t = true
      · rw [if_pos hsuspended] at hlabel
        cases hlabel
      · rw [if_neg hsuspended] at hlabel
        cases hlabel
        refine ⟨fun hact => ?_, fun j deleted hstage => ?_⟩
        · dsimp only at hact
          split at hact <;> cases hact
        · cases hstage
          exact deletes_clear (by simpa using hsuspended) _ _
  | start => cases hlabel; exact ⟨nofun, nofun⟩
  | requeue => cases hlabel; exact ⟨nofun, nofun⟩
  | resume => cases hlabel; exact ⟨nofun, nofun⟩
  | walk => cases hlabel; exact ⟨nofun, nofun⟩
  | walkVertical => cases hlabel; exact ⟨nofun, nofun⟩
  | search => cases hlabel
  | pop => cases hlabel
  | handOver => cases hlabel
  | skip => cases hlabel
  | restore => cases hlabel
  | arrive => cases hlabel
  | spawn => cases hlabel
  | back => cases hlabel

end Kernels

namespace Tracks

variable {b : Strategy} {nodes : Finset TaskId} {e : TaskId} {h₀ : Heap}
  {blocking : TaskId → Bool} {old : Thread m → Bool} {s s' : Kernels m}
  {a : Suspend.State TaskId (Thread m)} {i : Thread m}

section

variable (h : Tracks b nodes e h₀ blocking old s a) (hruns : Runs nodes e h₀)
include h hruns

theorem kind {t : TaskId} (ht : a.stage t = .ready) : (s.heap t).isAceMesh = true := by
  rw [h.shape.isAceMesh]
  exact hruns.kind t (h.inv.mem_of_stage (by rw [ht]; nofun)).1

/-- When no edge into the end task is left, no task is waiting or ready. -/
theorem done_of_ended (hend : a.pending nodes (fun t => (h₀ t).outs) e = 0) {t : TaskId}
    (ht : t ∈ nodes) : 0 < (a.stage t).done (h₀ t).outs.length := by
  have hdone := h.inv.done_of_sink hruns.dag hend ht
  have hpos := List.length_pos_iff.mpr (hruns.dag.outs_ne_nil ht)
  exact Nat.lt_of_lt_of_le hpos hdone

theorem not_ready (hend : a.pending nodes (fun t => (h₀ t).outs) e = 0) (t : TaskId) :
    a.stage t ≠ .ready := by
  intro ht
  have hmem := (h.inv.mem_of_stage (t := t) (by rw [ht]; nofun)).1
  have hpos := h.done_of_ended hruns hend hmem
  rw [ht] at hpos
  exact absurd hpos (Nat.lt_irrefl 0)

end

/-- The counter of a waiting task changes by the walk of an edge only. -/
theorem refCount_turn (h : Tracks b nodes e h₀ blocking old s a) (hold : old i = false)
    {label : Option (Label m)} (hturn : Kernels.Turn b s i s' label) {u : TaskId}
    (hu : a.stage u = .waiting) : (s'.heap u).refCount = (s.heap u).refCount -
      if (label.bind Label.act) = some (.walk u) then 1 else 0 := by
  refine hturn.refCount (fun hp => ?_) fun t hp => ?_
  · have hstage := h.placed.of_hand hold (t := u) (by rw [hp]; exact List.mem_cons_self)
    rw [hu] at hstage
    cases hstage
  · have hstage := h.placed.of_hand hold (t := u) (σ := .ready) (by
      rw [hp]
      simp [Pc.view])
    rw [hu] at hstage
    cases hstage

/-- A step of a thread, as far as the abstract run is concerned. -/
theorem withTurn (h : Tracks b nodes e h₀ blocking old s a) (hruns : Runs nodes e h₀)
    {label : Option (Label m)} (hturn : Kernels.Turn b s i s' label)
    (hmain : i = .main → ∃ e, s.main = .run e) (hpresent : i = .mpi → b = .extraThread)
    {old' : Thread m → Bool} {a' : Suspend.State TaskId (Thread m)}
    (hinv : Suspend.Inv nodes (fun t => (h₀ t).outs) a') (hlog : s'.log = a'.log)
    (hplaced : Placed b old' s' a'.stage)
    (hleft : ∀ j, old' j = true → ∃ t, Foreign nodes e h₀ t ∧ (s'.pc j).Leftover s'.heap t)
    (hcount : ∀ t, a'.stage t = .waiting → a.stage t = .waiting ∧
      (s'.heap t).refCount + a.pending nodes (fun t => (h₀ t).outs) t =
        (s.heap t).refCount + a'.pending nodes (fun t => (h₀ t).outs) t)
    (hpending : a'.pending nodes (fun t => (h₀ t).outs) e ≤
      a.pending nodes (fun t => (h₀ t).outs) e)
    (hgone : ∀ t i deleted, a'.stage t = .gone i deleted → a.stage t = .gone i deleted ∨
      deleted = Kernels.deletes b i (h₀ t).reused (blocking t) false)
    (hthread : ∀ t j, (a'.stage t).thread = some j → (a.stage t).thread = some j ∨ j = i)
    (hsuspends : ∀ t, .finish true ∈ Suspend.history s'.log t →
      .finish true ∈ Suspend.history s.log t ∨ blocking t = true)
    (hendTask : Suspend.history s'.log e = Suspend.history s.log e) :
    Tracks b nodes e h₀ blocking old' s' a' := by
  obtain ⟨htypes, hmainEq⟩ := hturn.frame
  have hwaiting : a'.stage e = .waiting :=
    (hinv.waiting_iff e).mpr fun hand => hruns.dag.sink_notMem hand.1
  refine ⟨h.shape.trans hturn.shape, htypes.trans h.types, hinv, hlog, hplaced, hleft,
    fun t ht hw => ?_, fun hm => ?_, hmainEq ▸ h.waits, fun hm => ?_, fun hm => ?_, fun hm => ?_,
    fun t j deleted ht => ?_, fun t ht => ?_, fun t ht => ?_, ?_⟩
  · obtain ⟨hbefore, hchange⟩ := hcount t hw
    have := h.count t ht hbefore
    omega
  · have hbefore := h.endCount (hmainEq ▸ hm)
    have := (hcount e hwaiting).2
    omega
  · rw [hmainEq] at hm
    by_cases hi : i = .main
    · obtain ⟨e', hrun⟩ := hmain hi
      rw [hrun] at hm
      cases hm
    · rw [hturn.others (Ne.symm hi)]
      exact h.resting hm
  · rw [hmainEq] at hm
    by_cases hi : i = .main
    · obtain ⟨e', hrun⟩ := hmain hi
      rw [hrun] at hm
      cases hm
    · rw [hturn.others (Ne.symm hi)]
      exact h.between hm
  · have := h.ended (hmainEq ▸ hm)
    omega
  · exact (hgone t j deleted ht).elim (h.gone t j deleted) id
  · exact (hthread t .mpi ht).elim (h.present t) fun he => hpresent he.symm
  · exact (hsuspends t ht).elim (h.suspends t) id
  · rw [hendTask, hmainEq]
    exact h.endTask

theorem leftover_others (h : Tracks b nodes e h₀ blocking old s a) {label : Option (Label m)}
    (hturn : Kernels.Turn b s i s' label) {j : Thread m} (hj : old j = true) (hji : j ≠ i) :
    ∃ t, Foreign nodes e h₀ t ∧ (s'.pc j).Leftover s'.heap t := by
  rw [hturn.others hji]
  obtain ⟨t, hforeign, hpc⟩ := h.leftover j hj
  exact ⟨t, hforeign, (Pc.leftover_shape hturn.shape t _).mpr hpc⟩

/-- A step that means nothing to the stages. -/
theorem quietTurn (h : Tracks b nodes e h₀ blocking old s a) (hruns : Runs nodes e h₀)
    (hold : old i = false) (hturn : Kernels.Turn b s i s' none)
    (hmain : i = .main → ∃ e, s.main = .run e) (hpresent : i = .mpi → b = .extraThread) :
    Tracks b nodes e h₀ blocking old s' a := by
  have hlog : s'.log = s.log := hturn.log.trans (List.append_nil _)
  refine h.withTurn hruns hturn hmain hpresent h.inv (hlog.trans h.log)
    (h.placed.quietTurn hold (fun t ht => h.kind hruns ht) hturn) (fun j hj => ?_)
    (fun t ht => ⟨ht, ?_⟩) le_rfl (fun t j deleted ht => Or.inl ht) (fun t j ht => Or.inl ht)
    (fun t ht => Or.inl (hlog ▸ ht)) (by rw [hlog])
  · refine h.leftover_others hturn hj ?_
    rintro rfl
    rw [hold] at hj
    cases hj
  · have hsame : (s'.heap t).refCount = (s.heap t).refCount := by
      simpa using h.refCount_turn hold hturn ht
    rw [hsame]

/-- The counters decide what the abstract run decides: a successor is released when its counter
becomes zero. The end task keeps the count of the waiting main thread. -/
theorem goes (h : Tracks b nodes e h₀ blocking old s a) (hruns : Runs nodes e h₀) {l : Label m}
    (hadv : Suspend.Advance (h₀ l.task).outs i (a.stage l.task) l.act l.stage)
    {a' : Suspend.State TaskId (Thread m)}
    (heffect : Suspend.Effect nodes (fun t => (h₀ t).outs) a a' l.task l.act l.stage) :
    Goes s l a.stage a'.stage := by
  obtain ⟨hbefore, -⟩ := hadv.not_waiting
  have hmem : l.task ∈ nodes := (h.inv.mem_of_stage hbefore).1
  refine ⟨heffect.self, fun u hu => ?_, fun u hact => ?_⟩
  · rw [heffect.others u hu]
    by_cases hact : l.act = some (.walk u)
    · have hpending := heffect.pending u
      rw [if_pos hact] at hpending
      by_cases hnode : u ∈ nodes
      · have hcount := h.count u hnode (heffect.waits h.inv hact)
        have hiff : (s.heap u).refCount - 1 = 0 ↔
            a'.pending nodes (fun t => (h₀ t).outs) u = 0 := by omega
        simp only [hact, hnode, hiff, true_and]
      · have hout := hruns.dag.outs_mem _ hmem u (hadv.mem_of_walk hact)
        obtain rfl := hout.resolve_left hnode
        have hnotEnded : s.main ≠ .prog := by
          intro hprog
          have hended := h.ended (by rw [hprog]; rfl)
          omega
        have hcount := h.endCount hnotEnded
        have hne : (s.heap u).refCount - 1 ≠ 0 := by omega
        rw [if_neg (fun hand => hnode hand.1), if_neg (fun hand => hne hand.2)]
    · rw [if_neg (fun hand => hact hand.2.1), if_neg (fun hand => hact hand.1)]
  · refine ⟨?_, heffect.waits h.inv hact⟩
    rintro rfl
    exact hbefore (heffect.waits h.inv hact)

/-- A step of a task of the graph is a step of the abstract run. -/
theorem activeTurn (h : Tracks b nodes e h₀ blocking old s a) (hruns : Runs nodes e h₀)
    (hold : old i = false) {l : Label m} (hturn : Kernels.Turn b s i s' (some l))
    (hmain : i = .main → ∃ e, s.main = .run e) (hpresent : i = .mpi → b = .extraThread) :
    ∃ a', Tracks b nodes e h₀ blocking old s' a' := by
  have hadv := h.placed.advances hold hturn
  rw [h.shape.outs l.task] at hadv
  obtain ⟨hbefore, hafter⟩ := hadv.not_waiting
  have heffect := h.inv.effect hadv
  have hinv := h.inv.step (Suspend.Step.job hadv)
  have hlog' : ((a.advance i l.task l.act l.stage).after nodes (fun t => (h₀ t).outs) l.act).log =
      (a.advance i l.task l.act l.stage).log := Suspend.State.after_log ..
  generalize (a.advance i l.task l.act l.stage).after nodes (fun t => (h₀ t).outs) l.act = a'
    at heffect hinv hlog'
  have hmem : l.task ∈ nodes := (h.inv.mem_of_stage hbefore).1
  have hlog : s'.log = s.log ++ (l.act.map (Suspend.Event.mk i l.task)).toList := hturn.log
  have hgoes := h.goes hruns hadv heffect
  obtain ⟨hsuspends, hgone⟩ := hturn.label
  refine ⟨a', h.withTurn hruns hturn hmain hpresent hinv ?_ (h.placed.activeTurn hold hturn hgoes)
    (fun j hj => ?_) (fun t ht => ?_) ?_ (fun t j deleted ht => ?_) (fun t j ht => ?_)
    (fun t ht => ?_) ?_⟩
  · rw [hlog', hlog, h.log]
    rfl
  · refine h.leftover_others hturn hj ?_
    rintro rfl
    rw [hold] at hj
    cases hj
  · have hne : t ≠ l.task := by
      rintro rfl
      rw [heffect.self] at ht
      exact hafter ht
    have hpending := heffect.pending t
    have hwaiting := (heffect.stage_of_ne hne (by rw [ht]; nofun)).symm.trans ht
    have hrefCount := h.refCount_turn hold hturn hwaiting
    simp only [Option.bind_some] at hrefCount
    refine ⟨hwaiting, ?_⟩
    by_cases hact : l.act = some (.walk t)
    · rw [if_pos hact] at hpending hrefCount
      omega
    · rw [if_neg hact] at hpending hrefCount
      omega
  · have hpending := heffect.pending e
    omega
  · by_cases htask : t = l.task
    · subst htask
      rw [heffect.self] at ht
      apply Or.inr
      rw [hgone j deleted ht, h.shape.reused, h.types]
    · exact Or.inl ((heffect.stage_of_ne htask (by rw [ht]; nofun)).symm.trans ht)
  · by_cases htask : t = l.task
    · subst htask
      rw [heffect.self] at ht
      exact hadv.thread ht
    · have hready : a'.stage t ≠ .ready := by
        intro hready
        rw [hready] at ht
        cases ht
      rw [heffect.stage_of_ne htask hready] at ht
      exact Or.inl ht
  · rw [hlog, Suspend.history_act, List.mem_append] at ht
    refine ht.imp_right fun hact => ?_
    split at hact
    · rename_i htask
      subst htask
      rw [← h.types]
      exact hsuspends (by simpa using hact)
    · simp at hact
  · have hne : l.task ≠ e := fun he => hruns.dag.sink_notMem (he ▸ hmem)
    rw [hlog, Suspend.history_act, if_neg hne, List.append_nil]

/-- A thread that is still at a task of an earlier graph. -/
theorem oldTurn (h : Tracks b nodes e h₀ blocking old s a) (hruns : Runs nodes e h₀)
    (hold : old i = true) {label : Option (Label m)} (hturn : Kernels.Turn b s i s' label)
    (hmain : i = .main → ∃ e, s.main = .run e) (hpresent : i = .mpi → b = .extraThread) :
    ∃ old' a', Tracks b nodes e h₀ blocking old' s' a' := by
  obtain ⟨t, hforeign, hpc⟩ := h.leftover i hold
  have hreturns := hturn.returns hpc
  have hleft : ∀ j, Function.update old i (s'.pc i != .next) j = true →
      ∃ t, Foreign nodes e h₀ t ∧ (s'.pc j).Leftover s'.heap t := by
    intro j hj
    by_cases hji : j = i
    · subst hji
      rw [Function.update_self] at hj
      refine ⟨t, hforeign, (Pc.leftover_shape hturn.shape t _).mpr ?_⟩
      exact hreturns.pc.resolve_right (by simpa using hj)
    · rw [Function.update_of_ne hji] at hj
      exact h.leftover_others hturn hj hji
  have hcount : ∀ {a' : Suspend.State TaskId (Thread m)}, a'.stage = a.stage → ∀ u,
      a'.stage u = .waiting → a.stage u = .waiting ∧
        (s'.heap u).refCount + a.pending nodes (fun t => (h₀ t).outs) u =
          (s.heap u).refCount + a'.pending nodes (fun t => (h₀ t).outs) u := by
    intro a' ha u hu
    refine ⟨ha ▸ hu, ?_⟩
    rw [hreturns.refCount u]
    unfold Suspend.State.pending Suspend.State.done
    rw [ha]
  obtain hlog | ⟨hlog, hkept⟩ := hreturns.log
  · exact ⟨_, a, h.withTurn hruns hturn hmain hpresent h.inv (hlog.trans h.log)
      (h.placed.oldTurn hold hturn hreturns) hleft (hcount rfl) le_rfl
      (fun _ _ _ ht => Or.inl ht) (fun _ _ ht => Or.inl ht) (fun _ ht => Or.inl (hlog ▸ ht))
      (by rw [hlog])⟩
  · rw [h.shape.reused] at hkept
    obtain ⟨hnode, hne⟩ : t ∉ nodes ∧ t ≠ e :=
      hforeign.resolve_right (by rw [hkept]; simp)
    have hhistory : ∀ u, Suspend.history s'.log u =
        Suspend.history s.log u ++ if t = u then [.delete] else [] := by
      intro u
      rw [hlog]
      exact Suspend.history_append s.log ⟨i, t, .delete⟩ u
    refine ⟨_, { a with log := a.log ++ [⟨i, t, .delete⟩] }, h.withTurn hruns hturn hmain hpresent
      (h.inv.step (Suspend.Step.other hnode nofun)) (by rw [hlog, h.log])
      (h.placed.oldTurn hold hturn hreturns) hleft (hcount rfl) le_rfl
      (fun _ _ _ ht => Or.inl ht) (fun _ _ ht => Or.inl ht) (fun u hu => ?_) ?_⟩
    · rw [hhistory, List.mem_append] at hu
      refine hu.imp_right fun hact => ?_
      split at hact <;> simp at hact
    · rw [hhistory, if_neg hne, List.append_nil]

theorem turn (h : Tracks b nodes e h₀ blocking old s a) (hruns : Runs nodes e h₀)
    {label : Option (Label m)} (hturn : Kernels.Turn b s i s' label)
    (hmain : i = .main → ∃ e, s.main = .run e) (hpresent : i = .mpi → b = .extraThread) :
    ∃ old' a', Tracks b nodes e h₀ blocking old' s' a' := by
  by_cases hold : old i = true
  · exact h.oldTurn hruns hold hturn hmain hpresent
  · have hold : old i = false := by simpa using hold
    cases label with
    | none => exact ⟨old, a, h.quietTurn hruns hold hturn hmain hpresent⟩
    | some l =>
        obtain ⟨a', ha'⟩ := h.activeTurn hruns hold hturn hmain hpresent
        exact ⟨old, a', ha'⟩

theorem eq_endTask (h : Tracks b nodes e h₀ blocking old s a) {e' : TaskId}
    (hmain : s.main.waitsFor = some e') : e' = e := by
  obtain hprog | hwaits := h.waits
  · rw [hprog] at hmain
    cases hmain
  · exact Option.some.inj (hmain.symm.trans hwaits)

/-- When the loop is left, the main thread has nothing in its hand. -/
theorem main_next (h : Tracks b nodes e h₀ blocking old s a) (hruns : Runs nodes e h₀)
    (hmain : s.main = .test e) (hend : a.pending nodes (fun t => (h₀ t).outs) e = 0) :
    s.pc .main = .next := by
  refine (h.between hmain).resolve_right ?_
  rintro ⟨t, ht⟩
  by_cases hold : old .main = true
  · obtain ⟨u, -, hpc⟩ := h.leftover .main hold
    rw [ht] at hpc
    exact hpc
  · have hold : old .main = false := by simpa using hold
    have hready : a.stage t = .ready :=
      h.placed.of_hand hold (by rw [ht]; exact List.mem_singleton_self _)
    exact h.not_ready hruns hend t hready

/-- The main thread gets on, and no counter and no event of a task changes. -/
theorem withMain (h : Tracks b nodes e h₀ blocking old s a) {heap : Heap} {main : MainPc}
    (hshape : s.heap.SameShape heap)
    (hcount : ∀ t, (t ∈ nodes ∨ main ≠ .prog) → (heap t).refCount = (s.heap t).refCount)
    (hprog : main ≠ .prog → s.main ≠ .prog) (hwaits : main = .prog ∨ main.waitsFor = some e)
    (hroots : main.roots = s.main.roots)
    (hresting : main.executing = false → s.pc .main = .next)
    (hbetween : main = .test e → s.pc .main = .next ∨ ∃ t, s.pc .main = .hold t)
    (hended : main.past = true → a.pending nodes (fun t => (h₀ t).outs) e = 0)
    (hdropped : main.dropped = s.main.dropped ∨ (h₀ e).reused = true) :
    Tracks b nodes e h₀ blocking old { s with heap := heap, main := main } a := by
  refine ⟨h.shape.trans hshape, h.types, h.inv, h.log, h.placed.withMain hshape hroots,
    fun j hj => ?_, fun t ht hw => ?_, fun hm => ?_, hwaits, hresting, hbetween,
    hended, h.gone, h.present, h.suspends, ?_⟩
  · obtain ⟨t, hforeign, hp⟩ := h.leftover j hj
    exact ⟨t, hforeign, (Pc.leftover_shape hshape t _).mpr hp⟩
  · exact (hcount t (Or.inl ht)).trans (h.count t ht hw)
  · exact (hcount e (Or.inr hm)).trans (h.endCount (hprog hm))
  · show Suspend.history s.log e = _
    rw [h.endTask]
    obtain hdropped | hreused := hdropped
    · rw [hdropped]
    · simp [hreused]

/-- A root is spawned. -/
theorem spawnRoot (h : Tracks b nodes e h₀ blocking old s a) {e' t : TaskId}
    {roots : List TaskId} {q : Queue m} (hmain : s.main = .spawn e' (t :: roots)) :
    Tracks b nodes e h₀ blocking old { s.enqueue q t with main := .spawn e' roots } a := by
  obtain rfl := h.eq_endTask (by rw [hmain]; rfl)
  refine ⟨h.shape, h.types, h.inv, h.log, h.placed.spawnRoot q hmain, h.leftover, h.count,
    fun _ => h.endCount (by rw [hmain]; nofun), Or.inr rfl,
    fun _ => h.resting (by rw [hmain]; rfl), nofun, nofun, h.gone, h.present, h.suspends, ?_⟩
  have hend := h.endTask
  rw [hmain] at hend
  exact hend

/-- The end task is deleted; it is no task of the abstract run. -/
theorem deleteEndTask (h : Tracks b nodes e h₀ blocking old s a) (hruns : Runs nodes e h₀)
    (hmain : s.main = .left e) (hreused : (s.heap e).reused = false) :
    Tracks b nodes e h₀ blocking old
      { (s.setHeap (s.heap.delete e)).record .main e .delete with main := .returned e }
      { a with log := a.log ++ [⟨.main, e, .delete⟩] } := by
  have hshape : s.heap.SameShape (s.heap.delete e) := s.heap.sameShape_modify e _ rfl
  have hcount : ∀ t, (s.heap.delete e t).refCount = (s.heap t).refCount :=
    s.heap.refCount_of_delete e
  have hhistory : ∀ t, Suspend.history (s.log ++ [⟨.main, e, .delete⟩]) t =
      Suspend.history s.log t ++ if e = t then [.delete] else [] :=
    fun t => Suspend.history_append s.log ⟨.main, e, .delete⟩ t
  refine ⟨h.shape.trans hshape, h.types,
    h.inv.step (Suspend.Step.other hruns.dag.sink_notMem nofun), ?_,
    (h.placed.withMain hshape (by rw [hmain]; rfl)).of_record .main e .delete, fun j hj => ?_,
    fun t ht hw => (hcount t).trans (h.count t ht hw),
    fun _ => (hcount e).trans (h.endCount (by rw [hmain]; nofun)), Or.inr rfl,
    fun _ => h.resting (by rw [hmain]; rfl), nofun, fun _ => h.ended (by rw [hmain]; rfl),
    h.gone, h.present, fun t ht => ?_, ?_⟩
  · show s.log ++ _ = a.log ++ _
    rw [h.log]
  · obtain ⟨t, hforeign, hp⟩ := h.leftover j hj
    exact ⟨t, hforeign, (Pc.leftover_shape hshape t _).mpr hp⟩
  · refine h.suspends t ?_
    change Act.finish true ∈ Suspend.history (s.log ++ [⟨.main, e, .delete⟩]) t at ht
    rw [hhistory, List.mem_append] at ht
    refine ht.resolve_right fun hact => ?_
    split at hact <;> simp at hact
  · show Suspend.history (s.log ++ [⟨.main, e, .delete⟩]) e = _
    have hend := h.endTask
    rw [hmain] at hend
    rw [hhistory, hend, if_pos rfl, ← h.shape.reused, hreused]
    rfl

/-- Every step of every thread is a step of the abstract run, or none. -/
theorem move (h : Tracks b nodes e h₀ blocking old s a) (hruns : Runs nodes e h₀)
    {label : Option (Label m)} (hmove : Kernels.Move b s s' label) :
    ∃ old' a', Tracks b nodes e h₀ blocking old' s' a' := by
  have hsame := Heap.SameShape.refl s.heap
  cases hmove with
  | turn working present turn => exact h.turn hruns turn working present
  | @turnEnd e' s' _ main turn between =>
      obtain ⟨old', a', h'⟩ := h.turn hruns turn (fun _ => ⟨e', main⟩) nofun
      have hmain : s'.main = .run e' := turn.frame.2.trans main
      obtain rfl := h'.eq_endTask (by rw [hmain]; rfl)
      exact ⟨old', a', h'.withMain (Heap.SameShape.refl _) (fun _ _ => rfl)
        (fun _ => by rw [hmain]; nofun) (Or.inr rfl) (by rw [hmain]; rfl) nofun
        (fun _ => between) nofun (Or.inl (by rw [hmain]; rfl))⟩
  | root main => exact ⟨old, a, h.spawnRoot main⟩
  | @enter e' main =>
      obtain rfl := h.eq_endTask (by rw [main]; rfl)
      have hpc : s.pc .main = .next := h.resting (by rw [main]; rfl)
      rw [Kernels.setPc_self hpc]
      exact ⟨old, a, h.withMain hsame (fun _ _ => rfl) (fun _ => by rw [main]; nofun)
        (Or.inr rfl) (by rw [main]; rfl) nofun (fun _ => Or.inl hpc) nofun
        (Or.inl (by rw [main]; rfl))⟩
  | @test e' main =>
      obtain rfl := h.eq_endTask (by rw [main]; rfl)
      have hcount := h.endCount (by rw [main]; nofun)
      by_cases hlt : 1 < (s.heap e').refCount
      · rw [if_pos hlt]
        exact ⟨old, a, h.withMain hsame (fun _ _ => rfl) (fun _ => by rw [main]; nofun)
          (Or.inr rfl) (by rw [main]; rfl) nofun nofun nofun (Or.inl (by rw [main]; rfl))⟩
      · rw [if_neg hlt]
        have hzero : a.pending nodes (fun t => (h₀ t).outs) e' = 0 := by omega
        exact ⟨old, a, h.withMain hsame (fun _ _ => rfl) (fun _ => by rw [main]; nofun)
          (Or.inr rfl) (by rw [main]; rfl) (fun _ => h.main_next hruns main hzero) nofun
          (fun _ => hzero) (Or.inl (by rw [main]; rfl))⟩
  | @keep e' main reused =>
      obtain rfl := h.eq_endTask (by rw [main]; rfl)
      exact ⟨old, a, h.withMain hsame (fun _ _ => rfl) (fun _ => by rw [main]; nofun)
        (Or.inr rfl) (by rw [main]; rfl) (fun _ => h.resting (by rw [main]; rfl)) nofun
        (fun _ => h.ended (by rw [main]; rfl)) (Or.inr (by rw [← h.shape.reused]; exact reused))⟩
  | @delete e' main reused =>
      obtain rfl := h.eq_endTask (by rw [main]; rfl)
      exact ⟨old, _, h.deleteEndTask hruns main reused⟩
  | @back e' main =>
      obtain rfl := h.eq_endTask (by rw [main]; rfl)
      refine ⟨old, a, h.withMain (s.heap.sameShape_restore e') (fun t ht => ?_)
        (fun hm => absurd rfl hm) (Or.inl rfl) (by rw [main]; rfl)
        (fun _ => h.resting (by rw [main]; rfl)) nofun (fun _ => h.ended (by rw [main]; rfl))
        (Or.inl (by rw [main]; rfl))⟩
      have hne : t ≠ e' := by
        rintro rfl
        exact ht.elim (fun hmem => hruns.dag.sink_notMem hmem) fun hm => hm rfl
      rw [Heap.refCount_restore, if_neg fun hand => hne hand.1]

/-- The whole run. -/
theorem steps (h : Tracks b nodes e h₀ blocking old s a) (hruns : Runs nodes e h₀)
    (hsteps : s.Steps b s') : ∃ old' a', Tracks b nodes e h₀ blocking old' s' a' := by
  induction hsteps with
  | refl => exact ⟨old, a, h⟩
  | tail _ hlast ih =>
      obtain ⟨old₁, a₁, h₁⟩ := ih
      obtain ⟨i, hit, mode, hstep⟩ := hlast
      obtain ⟨label, hmove⟩ := Kernels.step_move hstep
      exact h₁.move hruns hmove

end Tracks

/-! ## The begin of an execution -/

/-- The program is about to spawn a graph whose counters are in-degrees and whose roots are
its tasks without predecessors. Threads may still have to return from tasks of earlier graphs. -/
structure Ready (nodes : Finset TaskId) (e : TaskId) (roots : List TaskId) (s : Kernels m) :
    Prop where
  runs : Runs nodes e s.heap
  counts : ∀ t ∈ nodes, (s.heap t).refCount = inDegree nodes s.heap t
  endCount : (s.heap e).refCount = inDegree nodes s.heap e
  roots_nodup : roots.Nodup
  mem_roots : ∀ t, t ∈ roots ↔ t ∈ nodes ∧ inDegree nodes s.heap t = 0
  queue : ∀ q, s.queue q = []
  pc : ∀ i, (s.pc i).searching = true ∨
    ∃ t, Foreign nodes e s.heap t ∧ (s.pc i).Leftover s.heap t
  main : s.pc .main = .next

namespace Ready

variable {nodes : Finset TaskId} {e : TaskId} {roots : List TaskId} {s : Kernels m}
  (h : Ready nodes e roots s)
include h

/-- The stages that the abstract run begins with. -/
theorem stage (t : TaskId) : (Suspend.State.initial nodes (fun t => (s.heap t).outs) :
    Suspend.State TaskId (Thread m)).stage t = if t ∈ roots then .ready else .waiting := by
  rw [Suspend.State.initial_stage]
  change (if t ∈ nodes ∧ inDegree nodes s.heap t = 0 then _ else _) = _
  by_cases ht : t ∈ roots
  · rw [if_pos ht, if_pos ((h.mem_roots t).mp ht)]
  · rw [if_neg ht, if_neg fun hand => ht ((h.mem_roots t).mpr hand)]

/-- In the beginning all places but the list of the roots are empty. -/
theorem mem_content (b : Strategy) (place : Place m) (u : TaskId) (σ : Stage (Thread m)) :
    (u, σ) ∈ (s.spawn e roots).content b (fun i => !(s.pc i).searching) place ↔
      place = .root ∧ u ∈ roots ∧ σ = .ready := by
  cases place with
  | root =>
      show (u, σ) ∈ roots.map _ ↔ _
      simp only [List.mem_map, Prod.mk.injEq, true_and]
      constructor
      · rintro ⟨w, hw, rfl, rfl⟩
        exact ⟨hw, rfl⟩
      · rintro ⟨hu, rfl⟩
        exact ⟨u, hu, rfl, rfl⟩
  | queue q =>
      show (u, σ) ∈ (s.queue q).map _ ↔ _
      simp [h.queue q]
  | hand i =>
      by_cases hi : (s.pc i).searching = true
      · have hview : (s.spawn e roots).content b (fun i => !(s.pc i).searching) (.hand i) = [] :=
          (Kernels.content_of_hand (by simp [hi])).trans (Pc.view_searching hi ..)
        simp [hview]
      · simp [Kernels.content, hi]

theorem placed (b : Strategy) : Placed b (fun i => !(s.pc i).searching) (s.spawn e roots)
    (Suspend.State.initial nodes fun t => (s.heap t).outs).stage := by
  have hsearching : ∀ i, (!(s.pc i).searching) = false → (s.pc i).searching = true := by
    intro i hi
    simpa using hi
  refine ⟨fun u => ⟨.root, fun place σ => ?_⟩, fun q => ?_, h.roots_nodup, fun i hi => ?_,
    fun i t v hi hp => ?_, fun t ht => ?_, fun _ t j ht => ?_⟩
  · rw [h.mem_content, h.stage]
    by_cases hu : u ∈ roots
    · simp [hu, Stage.placed, and_comm]
    · simp [hu, Stage.placed]
  · show (s.queue q).Nodup
    rw [h.queue q]
    exact List.nodup_nil
  · exact Pc.inside_searching (hsearching i hi) _
  · have hreturned := hsearching i hi
    have hp : s.pc i = .ret t v := hp
    rw [hp] at hreturned
    cases hreturned
  · rw [h.stage] at ht
    split at ht <;> exact absurd rfl ht
  · rw [h.stage] at ht
    split at ht <;> cases ht

theorem tracks (b : Strategy) : ∃ old a,
    Tracks b nodes e s.heap s.blocking old (s.spawn e roots) a := by
  have hshape := s.heap.sameShape_increment e
  refine ⟨fun i => !(s.pc i).searching, Suspend.State.initial nodes fun t => (s.heap t).outs,
    hshape, rfl, Suspend.Inv.initial, rfl, h.placed b, fun i hi => ?_, fun t ht hw => ?_,
    fun _ => ?_, Or.inr rfl, fun _ => h.main, nofun, nofun, fun t i deleted ht => ?_,
    fun t ht => ?_, nofun, rfl⟩
  · have hno : (s.pc i).searching ≠ true := by simpa using hi
    obtain ⟨t, hforeign, hp⟩ := (h.pc i).resolve_left hno
    exact ⟨t, hforeign, (Pc.leftover_shape hshape t _).mpr hp⟩
  · show (s.heap.incrementRefCount e t).refCount = _
    have hne : t ≠ e := fun he => h.runs.dag.sink_notMem (he ▸ ht)
    rw [Heap.refCount_increment, if_neg hne, Suspend.State.initial_pending, h.counts t ht,
      Int.add_zero]
    rfl
  · show (s.heap.incrementRefCount e e).refCount = _
    rw [Heap.refCount_increment, if_pos rfl, Suspend.State.initial_pending, h.endCount]
    rfl
  · rw [h.stage] at ht
    split at ht <;> cases ht
  · rw [h.stage] at ht
    split at ht <;> cases ht

end Ready

end MpiStrategy

end AceMesh
