import AceMesh.Lib.Refinement
import AceMesh.Stealing

/-!
# The default build runs the scheduler

The default build (`STATIC_STACK_STRATEGY`): the queues are the task stacks, and no thread pops
from the queue of another one. The state is that of the build that steals; a thread whose own
queue has given nothing goes on in its loop.

A thread pops from its own queue only, so what it has read there is still so when its
`compare_and_swap` succeeds, and the runtime never pushes a task that is on a stack or on its way
to one. So the atomic steps of `push` and `try_pop`, interleaved with everything else, come down
to the steps of the scheduler with its lists (`default_build_refines`).
-/

open AceMesh.TaskDagGraph AceMesh.Runtime

namespace AceMesh

theorem Stacks.Reads.step {k n : Nat} {s : Stacks k n} {i : Fin n} {o : Op k}
    (h : s.Reads (s.op i) o) : s.step i = s.setOp i o := by
  unfold Stacks.step
  generalize s.op i = o' at h ⊢
  cases h with
  | load => rfl
  | retry hne => exact if_neg hne
  | empty htop => simp only [htop]
  | top htop => simp only [htop]
  | next => rfl
  | fail hne => exact if_neg hne

namespace Stealing

variable {m : Nat}

/-- One step of thread `i` in the build that does not steal. -/
def ownStep (s : Stealing m) (i : Fin (m + 1)) : Option (Stealing m) :=
  match s.queues.op i with
  | .popped _ none => (s.runtime.step i false).map (s.setOp i .idle).setRuntime
  | _ => s.threadStep i 0

inductive OwnAct (m : Nat)
  | thread (i : Fin (m + 1))
  | call (c : ProgramCall)

def ownAct (s : Stealing m) : OwnAct m → Option (Stealing m)
  | .thread i => s.ownStep i
  | .call c => (s.session.call c).map fun session => { s with session := session }

def ownRun (s : Stealing m) : List (OwnAct m) → Option (Stealing m)
  | [] => some s
  | a :: acts => (s.ownAct a).bind fun s => s.ownRun acts

theorem isRun_ownRun : IsRun (ownAct (m := m)) ownRun :=
  ⟨fun _ => rfl, fun _ _ _ => rfl⟩

/-! ## What a step can do -/

/-- The steps of thread `i`. -/
inductive OwnMove (s : Stealing m) (i : Fin (m + 1)) : Stealing m → Prop
  | beginPop (op : s.queues.op i = .idle) (demand : s.runtime.demand i = .pop) :
      OwnMove s i (s.setOp i (.popLoad i))
  | beginPush {j : Fin (m + 1)} {t : TaskId} (op : s.queues.op i = .idle)
      (demand : s.runtime.demand i = .push t) (target : s.runtime.target i t = some j) :
      OwnMove s i (s.setOp i (.pushLoad j t))
  | other {r : Runtime m} (op : s.queues.op i = .idle) (demand : s.runtime.demand i = .other)
      (step : s.runtime.step i false = some r) : OwnMove s i (s.setRuntime r)
  | reads {o : Op (m + 1)} (reads : s.queues.Reads (s.queues.op i) o) :
      OwnMove s i (s.setOp i o)
  | write {j : Fin (m + 1)} {t : TaskId} {oldTop : Option TaskId}
      (op : s.queues.op i = .pushLink j t oldTop) :
      OwnMove s i { s with queues := s.queues.writeNext i j t oldTop }
  | put {j : Fin (m + 1)} {t : TaskId} {r : Runtime m}
      (op : s.queues.op i = .pushCas j t (s.queues.taskPool j))
      (step : s.runtime.step i true = some r) :
      OwnMove s i (({ s with queues := s.queues.putOn i j t } : Stealing m).setRuntime r)
  | take {j : Fin (m + 1)} {oldTop : TaskId} {newTop : Option TaskId}
      (op : s.queues.op i = .popCas j oldTop newTop) (top : s.queues.taskPool j = some oldTop) :
      OwnMove s i (({ s with queues := s.queues.takeOff i j oldTop newTop } : Stealing m).setRuntime
        (s.runtime.getTask i j oldTop))
  | pushed {j : Fin (m + 1)} {t : TaskId} (op : s.queues.op i = .pushed j t) :
      OwnMove s i (s.setOp i .idle)
  | popped {j : Fin (m + 1)} {t : TaskId} (op : s.queues.op i = .popped j (some t)) :
      OwnMove s i (s.setOp i .idle)
  | missed {j : Fin (m + 1)} {r : Runtime m} (op : s.queues.op i = .popped j none)
      (step : s.runtime.step i false = some r) :
      OwnMove s i ((s.setOp i .idle).setRuntime r)

variable {s s' : Stealing m} {i : Fin (m + 1)}

theorem stackStep_cases (hbusy : ¬ (s.queues.op i).Rest) (hs : s.stackStep i = some s') :
    OwnMove s i s' := by
  unfold stackStep at hs
  dsimp only at hs
  have hchange := s.queues.step_change i
  generalize s.queues.step i = q at hs hchange
  cases hchange with
  | still hi => exact absurd hi hbusy
  | @reads o hreads =>
      obtain ⟨-, -, hnot, hnot'⟩ := hreads.same
      rw [show (s.queues.setOp i o).op i = o by simp] at hs
      split at hs
      · exact absurd rfl (hnot _ _)
      · exact absurd rfl (hnot' _ _)
      · cases hs
        exact .reads hreads
  | @write j t oldTop hi =>
      rw [show (s.queues.writeNext i j t oldTop).op i = .pushCas j t oldTop by
        simp [Stacks.writeNext_op]] at hs
      cases hs
      exact .write hi
  | @put j t hi =>
      rw [show (s.queues.putOn i j t).op i = .pushed j t by simp [Stacks.putOn_op]] at hs
      obtain ⟨r, hr, rfl⟩ := Option.map_eq_some_iff.mp hs
      exact .put hi hr
  | @take j oldTop newTop hi htop =>
      rw [show (s.queues.takeOff i j oldTop newTop).op i = .popped j (some oldTop) by
        simp [Stacks.takeOff_op]] at hs
      cases hs
      exact .take hi htop

theorem ownStep_cases (hs : s.ownStep i = some s') : OwnMove s i s' := by
  unfold ownStep at hs
  split at hs
  · next op =>
      obtain ⟨r, hr, rfl⟩ := Option.map_eq_some_iff.mp hs
      exact .missed op hr
  · next hnot =>
      unfold threadStep at hs
      split at hs
      · next op =>
          split at hs
          · next demand =>
              cases hs
              exact .beginPop op demand
          · next demand =>
              obtain ⟨j, hj, rfl⟩ := Option.map_eq_some_iff.mp hs
              exact .beginPush op demand hj
          · next demand =>
              obtain ⟨r, hr, rfl⟩ := Option.map_eq_some_iff.mp hs
              exact .other op demand hr
      · next op =>
          cases hs
          exact .pushed op
      · next op =>
          cases hs
          exact .popped op
      · next op => exact absurd op (hnot _)
      all_goals
        next op => exact stackStep_cases (by simp [op, Op.Rest]) hs

/-! ## The invariant -/

/-- The stacks are used as one may use them: a thread pops from its own one only, and no task is
pushed twice. -/
structure OwnInv (next : TaskId → Option TaskId) (s : Stealing m) : Prop where
  inv : s.Inv
  used : Stacks.Reached (fun j => j) next s.queues

variable {next : TaskId → Option TaskId}

theorem ownInv_start : (start next : Stealing m).OwnInv next := ⟨inv_start next, .initial⟩

theorem OwnInv.owned (h : s.OwnInv next) : s.queues.Owned fun j => j :=
  (Stacks.reached_linkage h.used).2

theorem OwnMove.used (h : s.OwnInv next) (hmove : s.OwnMove i s') :
    Stacks.Reached (fun j => j) next s'.queues := by
  have hstep : Stacks.Reached (fun j => j) next (s.queues.step i) :=
    h.used.act (a := .step i) trivial
  have hret : (s.queues.op i).Rest → Stacks.Reached (fun j => j) next (s.queues.setOp i .idle) :=
    fun hrest => h.used.act (a := .ret i) hrest
  cases hmove with
  | beginPop op demand => exact h.used.act (a := .pop i i) ⟨op, rfl⟩
  | @beginPush j t op demand target =>
      exact h.used.act (a := .push i j t) ⟨op, h.inv.free demand op⟩
  | other op demand step => exact h.used
  | reads hreads =>
      rw [hreads.step] at hstep
      exact hstep
  | write op =>
      simp only [Stacks.step, op] at hstep
      exact hstep
  | put op step =>
      simp only [Stacks.step, op, if_true] at hstep
      exact hstep
  | take op top =>
      simp only [Stacks.step, op, top, if_true] at hstep
      exact hstep
  | pushed op => exact hret (by rw [op]; trivial)
  | popped op => exact hret (by rw [op]; trivial)
  | missed op step => exact hret (by rw [op]; trivial)

/-- The thread has got nothing and goes on in its loop. -/
theorem Inv.missed (h : s.Inv) {j : Fin (m + 1)} {r : Runtime m}
    (hop : s.queues.op i = .popped j none) (hr : s.runtime.step i false = some r) :
    ((s.setOp i .idle).setRuntime r).Inv := by
  have hqueue := step_queue hr
  rw [h.popping i (by rw [hop]; rfl)] at hqueue
  have hnew : (s.queues.setOp i .idle).op i = .idle := by simp
  refine h.moveOn (step_move h.session.inside hr) (h.linkage_setOp i rfl) ?_ ?_
    (by rw [hnew]; rfl) (by rw [hnew]; rfl)
  · intro j
    exact (congrFun (hqueue rfl) j).trans (h.queue j)
  · intro a ha
    rw [Stacks.setOp_op, if_neg ha]

theorem OwnInv.ownStep (h : s.OwnInv next) (hs : s.ownStep i = some s') : s'.OwnInv next := by
  refine ⟨?_, (ownStep_cases hs).used h⟩
  unfold Stealing.ownStep at hs
  split at hs
  · next op =>
      obtain ⟨r, hr, rfl⟩ := Option.map_eq_some_iff.mp hs
      exact h.inv.missed op hr
  · exact h.inv.threadStep (h.owned.freshPop i) hs

theorem OwnInv.ownAct (h : s.OwnInv next) {a : OwnAct m} (hs : s.ownAct a = some s') :
    s'.OwnInv next := by
  cases a with
  | thread i => exact h.ownStep hs
  | call c =>
      obtain ⟨session, hcall, rfl⟩ := Option.map_eq_some_iff.mp hs
      exact ⟨h.inv.call hcall, h.used⟩

/-! ## Refinement -/

/-- What a thread takes from its own stack is the first task of its list. -/
theorem step_getTask {r : Runtime m} {t : TaskId} {rest : List TaskId}
    (hdemand : r.demand i = .pop) (hqueue : r.queue i = t :: rest) :
    r.step i true = some (r.getTask i i t) := by
  have htask : r.getTask i i t =
      { r.setPc i (.hold t) with queue := Function.update r.queue i rest } := by
    unfold Runtime.getTask
    rw [hqueue, List.erase_cons_head]
  have hthread : (r.pc i).demand = .pop → r.threadStep i true = some (r.getTask i i t) := by
    intro hpc
    unfold Runtime.threadStep
    rw [Pc.eq_next_of_demand hpc, hqueue, htask]
    rfl
  unfold Runtime.step
  by_cases hi : i = 0
  · subst hi
    rw [if_pos rfl]
    rw [demand_zero] at hdemand
    split at hdemand
    · cases hdemand
    · next e hm =>
        unfold mainStep
        rw [hm]
        dsimp only
        rw [hthread hdemand, Option.map_some, Pc.eq_next_of_demand hdemand]
        have hpc : (r.getTask 0 0 t).pc 0 = .hold t := by
          show Function.update r.pc 0 (.hold t) 0 = _
          exact Function.update_self ..
        rw [hpc]
        rfl
    · cases hdemand
  · rw [if_neg hi]
    rw [demand_of_ne r hi] at hdemand
    exact hthread hdemand

/-- A step of the default build is a step of the scheduler, or the scheduler does not see it. -/
theorem OwnMove.shows (h : s.OwnInv next) (hmove : s.OwnMove i s') :
    s'.session = s.session ∨ ∃ hit, s.session.act (.thread i hit) = some s'.session := by
  have hact : ∀ {hit r}, s.runtime.step i hit = some r →
      s.session.act (.thread i hit) = some { s.session with runtime := r } := by
    intro hit r hr
    show (s.session.runtime.step i hit).map _ = _
    rw [hr]
    rfl
  cases hmove with
  | beginPop op demand => exact Or.inl rfl
  | beginPush op demand target => exact Or.inl rfl
  | other op demand step => exact Or.inr ⟨false, hact step⟩
  | reads hreads => exact Or.inl rfl
  | write op => exact Or.inl rfl
  | put op step => exact Or.inr ⟨true, hact step⟩
  | @take j oldTop newTop op top =>
      obtain ⟨rfl, -, -⟩ := h.owned.next i j oldTop newTop op
      obtain ⟨rest, hrest, -, -⟩ := h.inv.linkage.takeOff j top
      have hdemand := h.inv.popping j (by rw [op]; rfl)
      exact Or.inr ⟨true, hact (step_getTask hdemand ((h.inv.queue j).trans hrest))⟩
  | pushed op => exact Or.inl rfl
  | popped op => exact Or.inl rfl
  | missed op step => exact Or.inr ⟨false, hact step⟩

theorem refines_session (next : TaskId → Option TaskId) :
    Refines (ownAct (m := m)) Session.act Stealing.session (OwnInv next) where
  keeps := fun h hs => h.ownAct hs
  shows := by
    intro s a s' h hs
    cases a with
    | thread i =>
        rcases (ownStep_cases hs).shows h with hsame | ⟨hit, hact⟩
        · exact Or.inl hsame
        · exact Or.inr ⟨_, hact⟩
    | call c =>
        obtain ⟨session, hcall, rfl⟩ := Option.map_eq_some_iff.mp hs
        exact Or.inr ⟨.call c, hcall⟩

/-- Whatever the number of threads, the program, and the order of the atomic steps: what the
default build has done so far is a run of the scheduler with its lists. The lists are what hangs
on the stacks, without repetition, and the stacks are used by one popper each and by pushes of
tasks that are nowhere else. -/
theorem default_build_refines (next : TaskId → Option TaskId) (acts : List (OwnAct m))
    (s : Stealing m) (hrun : (start next).ownRun acts = some s) :
    (∃ acts', (Session.start : Session m).run acts' = some s.session) ∧
      Stacks.Reached (fun j => j) next s.queues ∧
      ∀ j, Linked s.queues.next (s.queues.taskPool j) (s.runtime.queue j) ∧
        (s.runtime.queue j).Nodup := by
  obtain ⟨hinv, hshown⟩ := (refines_session next).lift isRun_ownRun Session.isRun_run
    ownInv_start hrun
  refine ⟨hshown, hinv.used, fun j => ?_⟩
  rw [hinv.inv.queue j]
  exact ⟨hinv.inv.linkage.linked j, hinv.inv.linkage.nodup j⟩

/-- Two roots, one for each queue; the worker looks at its queue before the second one is
there. -/
def Example.roots : List (OwnAct 1) :=
  [.call (.build .beginSplitTask), .call (.build (.registerTask AceMesh.Example.reader)),
    .call (.build (.registerTask AceMesh.Example.reader)), .call (.build .endSplitTask),
    .call .spawnAndWait, .thread AceMesh.Example.worker,
    .thread AceMesh.Example.worker] ++ List.replicate 9 (.thread AceMesh.Example.main)

theorem default_build_refines_roots : ∃ (s : Stealing 1) (acts : List (Session.Act 1)),
    (start fun _ => none).ownRun Example.roots = some s ∧
      (Session.start : Session 1).run acts = some s.session ∧
      Linked s.queues.next (s.queues.taskPool 1) [1] := by
  have hrun : ((start fun _ => none).ownRun Example.roots).map (fun s => s.runtime.queue 1) =
      some [1] := by decide
  obtain ⟨s, hs, hqueue⟩ := Option.map_eq_some_iff.mp hrun
  obtain ⟨⟨acts, hacts⟩, -, hstacks⟩ := default_build_refines (fun _ => none) Example.roots s hs
  have hlinked := (hstacks 1).1
  rw [hqueue] at hlinked
  exact ⟨s, acts, hs, hacts, hlinked⟩

end Stealing

end AceMesh
